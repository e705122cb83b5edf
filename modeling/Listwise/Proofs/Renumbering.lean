import Listwise.Grammar.Statement
import Listwise.Proofs.Results

/-!
# Line numbers are labels

Nothing reads a line number but to report it.  So when the lines of lexemes are renumbered, by any `f`, every reader
still reads the same, with the lines of its result and of its error renumbered.

* `Lexeme.renumber`, …, `Written.Statement.renumber`: other numbers for lines.
* `Renumbered f r x y`: `y` is the error of `x` on its renumbered line, or `r` relates their values.
* `Natural f g r r'`: `r'` reads from renumbered lexemes what `g` makes of what `r` reads.
* `sum_natural`, `statement_natural`, `ofLexemes?_renumbered`: expressions, statements and whole inputs.
-/

namespace Listwise

/-!
## Other numbers

Line `n` gets the number `f n`.
-/

section Definitions

variable (f : Nat → Nat)

def Error.renumber (e : Error) : Error := { e with line := f e.line }

def Lexeme.renumber (l : Lexeme) : Lexeme := { l with line := f l.line }

def Expr.renumber {ν : Type} : Expr ν → Expr ν
  | .literal v n => .literal v (f n)
  | .var x n => .var x (f n)
  | .binary op l r n => .binary op l.renumber r.renumber (f n)
  | .negate e n => .negate e.renumber (f n)
  | .group e n => .group e.renumber (f n)

namespace Written

def Comprehension.renumber (c : Comprehension) : Comprehension :=
  { c with transform := c.transform.map (Expr.renumber f) }

def Form.renumber : Form → Form
  | .definitions cs => .definitions cs
  | .showAll => .showAll
  | .comprehension c => .comprehension (c.renumber f)

def Statement.renumber (w : Statement) : Statement := ⟨w.form.renumber f, f w.line⟩

end Written

/-- The same error on a renumbered line, or values that `r` relates. -/
abbrev Renumbered {α β : Type} (r : α → β → Prop) : Except Error α → Except Error β → Prop :=
  Related (fun _ => False) (fun e e' => e' = e.renumber f) r

end Definitions

namespace Grammar

/-! ## Readers -/

section Readers

variable {α β γ δ : Type} {n m : Nat} {f : Nat → Nat} {g : α → β}

/-- What was read from renumbered lexemes: the value that `g` makes of it, and the rest with its lines renumbered. -/
def Taken.Renumbered (f : Nat → Nat) (g : α → β) (t : Taken α n) (u : Taken β m) : Prop :=
  u.value = g t.value ∧ u.rest = t.rest.map (Lexeme.renumber f)

/-- The results of reading lexemes and of reading them renumbered. -/
def Mirrors (f : Nat → Nat) (g : α → β) (x : Except Error (Taken α n)) (y : Except Error (Taken β m)) : Prop :=
  Renumbered f (Taken.Renumbered f g) x y

/-- Renumbered lexemes are read by `r'` as the lexemes are by `r`. -/
def Natural (f : Nat → Nat) (g : α → β) {b b' : List Lexeme → Nat}
    (r : (ts : List Lexeme) → Except Error (Taken α (b ts)))
    (r' : (ts : List Lexeme) → Except Error (Taken β (b' ts))) : Prop :=
  ∀ ts, Mirrors f g (r ts) (r' (ts.map (Lexeme.renumber f)))

namespace Mirrors

variable {x : Except Error (Taken α n)} {y : Except Error (Taken β m)}

/-- One reader after the other; the second goes on with the value and the rest of the first. -/
theorem bind {n' m' : Nat} {g' : γ → δ} (h : Mirrors f g x y) {k : Taken α n → Except Error (Taken γ n')}
    {k' : Taken β m → Except Error (Taken δ m')}
    (hk : ∀ a ts hn hm, Mirrors f g' (k ⟨a, ts, hn⟩) (k' ⟨g a, ts.map (Lexeme.renumber f), hm⟩)) :
    Mirrors f g' (x >>= k) (y >>= k') := by
  refine Related.bind h ?_
  rintro ⟨a, ts, hn⟩ ⟨b, us, hm⟩ ⟨rfl, rfl⟩
  exact hk a ts hn hm

/-- Other views of two results that leave the rests alone. -/
theorem map {n' m' : Nat} {g' : γ → δ} (h : Mirrors f g x y) {v : Taken α n → Taken γ n'}
    {v' : Taken β m → Taken δ m'}
    (hv : ∀ a ts hn hm, Taken.Renumbered f g' (v ⟨a, ts, hn⟩) (v' ⟨g a, ts.map (Lexeme.renumber f), hm⟩)) :
    Mirrors f g' (x.map v) (y.map v') := by
  have hmap : ∀ {ε σ τ : Type} (z : Except ε σ) (w : σ → τ), z.map w = z >>= fun t => pure (w t) := by
    intro ε σ τ z w
    cases z <;> rfl
  rw [hmap, hmap]
  exact h.bind fun a ts hn hm => .ok (hv a ts hn hm)

theorem behind (h : Mirrors f g x y) : Mirrors f g (x.map Taken.behind) (y.map Taken.behind) :=
  h.map fun _ _ _ _ => ⟨rfl, rfl⟩

end Mirrors

section Combinators

variable {g' : γ → δ} {r : Reader α} {r' : Reader β}

theorem andThen_natural (h : Natural f g r r') {k : α → Reader γ} {k' : β → Reader δ}
    (hk : ∀ a, Natural f g' (k a) (k' (g a))) : Natural f g' (andThen r k) (andThen r' k') :=
  fun ts => (h ts).bind fun a ts₁ _ _ => (hk a ts₁).bind fun _ _ _ _ => .ok ⟨rfl, rfl⟩

theorem optionally_natural {r : OptionalReader α} {r' : OptionalReader β} (h : Natural f g r r') {k : α → Reader γ}
    {k' : β → Reader δ} (hk : ∀ a, Natural f g' (k a) (k' (g a))) :
    Natural f g' (optionally r k) (optionally r' k') :=
  fun ts => (h ts).bind fun a ts₁ _ _ => (hk a ts₁).bind fun _ _ _ _ => .ok ⟨rfl, rfl⟩

theorem andMaybe_natural (h : Natural f g r r') {k : α → OptionalReader γ} {k' : β → OptionalReader δ}
    (hk : ∀ a, Natural f g' (k a) (k' (g a))) : Natural f g' (andMaybe r k) (andMaybe r' k') :=
  fun ts => (h ts).bind fun a ts₁ _ _ => (hk a ts₁).bind fun _ _ _ _ => .ok ⟨rfl, rfl⟩

theorem mapRead_natural (h : Natural f g r r') {v : α → γ} {v' : β → δ} (hv : ∀ a, v' (g a) = g' (v a)) :
    Natural f g' (mapRead v r) (mapRead v' r') :=
  fun ts => (h ts).map fun a _ _ _ => ⟨hv a, rfl⟩

theorem relax_natural (h : Natural f g r r') : Natural f g (relax r) (relax r') := fun ts => (h ts).behind

/-- A reader that first looks whether there is anything to read. -/
theorem unless_natural {stops : List Lexeme → Bool} (hstops : ∀ ts, stops (ts.map (Lexeme.renumber f)) = stops ts)
    (x : α) {r : OptionalReader α} {r' : OptionalReader β} (h : Natural f g r r') :
    Natural f g (fun ts => if stops ts then .ok (.keep x ts) else r ts)
      (fun ts => if stops ts then .ok (.keep (g x) ts) else r' ts) := by
  intro ts
  show Mirrors f g (if stops ts then _ else _) (if stops (ts.map (Lexeme.renumber f)) then _ else _)
  rw [hstops]
  split
  · exact .ok ⟨rfl, rfl⟩
  · exact h ts

end Combinators

/-! ### Single tokens -/

section Tokens

variable (f : Nat → Nat) (line : Nat)

theorem expect_natural (t : Token) : Natural f id (expect line t) (expect (f line) t) := by
  intro ts
  cases ts with
  | nil => exact .error rfl
  | cons l ts =>
    show Mirrors f id (if l.token = t then _ else _) (if l.token = t then _ else _)
    split
    · exact .ok ⟨rfl, rfl⟩
    · exact .error rfl

theorem identifier_natural : Natural f id (identifier line) (identifier (f line)) := by
  rintro (_ | ⟨⟨t, n⟩, ts⟩)
  · exact .error rfl
  · cases t with
    | word name => exact .ok ⟨rfl, rfl⟩
    | _ => exact .error rfl

theorem unsignedNumber_natural : Natural f id (unsignedNumber line) (unsignedNumber (f line)) := by
  rintro (_ | ⟨⟨t, n⟩, ts⟩)
  · exact .error rfl
  · cases t with
    | number text => exact .ok ⟨rfl, rfl⟩
    | _ => exact .error rfl

theorem number_natural : Natural f id (number line) (number (f line)) := by
  have hunsigned := unsignedNumber_natural f line
  have hsigned : Natural f id (mapRead ("-" ++ ·) (unsignedNumber line))
      (mapRead ("-" ++ ·) (unsignedNumber (f line))) := mapRead_natural hunsigned fun _ => rfl
  rintro (_ | ⟨⟨t, n⟩, ts⟩)
  · exact hunsigned []
  · cases t with
    | minus => exact (hsigned ts).behind
    | _ => exact hunsigned (_ :: ts)

theorem startsNumber_renumber (ts : List Lexeme) : startsNumber (ts.map (Lexeme.renumber f)) = startsNumber ts := by
  rcases ts with _ | ⟨⟨t, n⟩, ts⟩
  · rfl
  · cases t <;> rfl

end Tokens

/-! ### Sequences -/

section Sequences

variable {item : Reader α} {item' : Reader β} (h : Natural f g item item')
include h

theorem chain_natural : Natural f (List.map g) (chain item) (chain item') := by
  intro ts
  fun_induction chain item ts with
  | case1 ts ih =>
    rw [chain]
    refine (h ts).bind fun x ts₁ hn hm => ?_
    rcases ts₁ with _ | ⟨⟨t, n⟩, ts₂⟩
    · exact .ok ⟨rfl, rfl⟩
    · cases t with
      | comma => exact (ih n ts₂ hn).bind fun _ _ _ _ => .ok ⟨rfl, rfl⟩
      | _ => exact .ok ⟨rfl, rfl⟩

theorem itemsUntil_natural (line : Nat) (closing : Token) :
    Natural f (List.map g) (itemsUntil line item closing) (itemsUntil (f line) item' closing) := by
  intro ts
  fun_induction itemsUntil line item closing ts with
  | case1 ts ih =>
    rw [itemsUntil]
    refine (h ts).bind fun x ts₁ hn hm => ?_
    cases ts₁ with
    | nil => exact .error rfl
    | cons l ts₂ =>
      show Mirrors f _ (if l.token = .comma then _ else if l.token = closing then _ else _)
        (if l.token = .comma then _ else if l.token = closing then _ else _)
      split
      · exact (ih l ts₂ hn).bind fun _ _ _ _ => .ok ⟨rfl, rfl⟩
      · split
        · exact .ok ⟨rfl, rfl⟩
        · exact .error rfl

theorem listUntil_natural (line : Nat) (closing : Token) :
    Natural f (List.map g) (listUntil line item closing) (listUntil (f line) item' closing) := by
  intro ts
  have hitems := itemsUntil_natural h line closing ts
  cases ts with
  | nil => exact hitems
  | cons l ts =>
    show Mirrors f _ (if l.token = closing then _ else _) (if l.token = closing then _ else _)
    split
    · exact .ok ⟨rfl, rfl⟩
    · exact hitems

end Sequences

end Readers

/-! ## Arithmetic -/

/-- Expressions are read the same, whatever the lines are called. -/
theorem sum_natural (f : Nat → Nat) (line : Nat) : Natural f (Expr.renumber f) (sum line) (sum (f line)) := by
  -- all readers of expressions at once, by their own recursion
  have hall := sum.mutual_induct
    (fun ts => Mirrors f (Expr.renumber f) (sum line ts) (sum (f line) (ts.map (Lexeme.renumber f))))
    (fun left ts => Mirrors f (Expr.renumber f) (sumTail line left ts)
      (sumTail (f line) (left.renumber f) (ts.map (Lexeme.renumber f))))
    (fun ts => Mirrors f (Expr.renumber f) (product line ts) (product (f line) (ts.map (Lexeme.renumber f))))
    (fun left ts => Mirrors f (Expr.renumber f) (productTail line left ts)
      (productTail (f line) (left.renumber f) (ts.map (Lexeme.renumber f))))
    (fun ts => Mirrors f (Expr.renumber f) (signed line ts) (signed (f line) (ts.map (Lexeme.renumber f))))
    (fun ts => Mirrors f (Expr.renumber f) (power line ts) (power (f line) (ts.map (Lexeme.renumber f))))
    (fun ts => Mirrors f (Expr.renumber f) (atom line ts) (atom (f line) (ts.map (Lexeme.renumber f))))
  refine (hall ?sum ?sumEnd ?sumStop ?sumSign ?product ?productEnd ?productStop ?productSign ?minus ?unsigned ?power
    ?atEnd ?number ?name ?parens ?other).1
  case sum =>
    intro ts hproduct htail
    rw [sum, sum]
    exact hproduct.bind fun left ts₁ hn _ => (htail left ts₁ hn).bind fun _ _ _ _ => .ok ⟨rfl, rfl⟩
  case product =>
    intro ts hsigned htail
    rw [product, product]
    exact hsigned.bind fun left ts₁ hn _ => (htail left ts₁ hn).bind fun _ _ _ _ => .ok ⟨rfl, rfl⟩
  case sumEnd =>
    intro left
    rw [List.map_nil, sumTail, sumTail]
    exact .ok ⟨rfl, rfl⟩
  case productEnd =>
    intro left
    rw [List.map_nil, productTail, productTail]
    exact .ok ⟨rfl, rfl⟩
  case sumStop =>
    intro left l ts₁ hop
    have hop' : sumOp? (l.renumber f).token = none := hop
    rw [List.map_cons, sumTail, sumTail, hop, hop']
    exact .ok ⟨rfl, rfl⟩
  case productStop =>
    intro left l ts₁ hop
    have hop' : productOp? (l.renumber f).token = none := hop
    rw [List.map_cons, productTail, productTail, hop, hop']
    exact .ok ⟨rfl, rfl⟩
  case sumSign =>
    intro left l ts₁ op hop hproduct htail
    have hop' : sumOp? (l.renumber f).token = some op := hop
    rw [List.map_cons, sumTail, sumTail, hop, hop']
    exact hproduct.bind fun right ts₂ hn _ => (htail right ts₂ hn).bind fun _ _ _ _ => .ok ⟨rfl, rfl⟩
  case productSign =>
    intro left l ts₁ op hop hsigned htail
    have hop' : productOp? (l.renumber f).token = some op := hop
    rw [List.map_cons, productTail, productTail, hop, hop']
    exact hsigned.bind fun right ts₂ hn _ => (htail right ts₂ hn).bind fun _ _ _ _ => .ok ⟨rfl, rfl⟩
  case minus =>
    intro n ts₁ hsigned
    rw [List.map_cons, Lexeme.renumber, signed, signed]
    exact hsigned.bind fun _ _ _ _ => .ok ⟨rfl, rfl⟩
  case unsigned =>
    intro ts hne hpower
    have hne' : ∀ n us, ts.map (Lexeme.renumber f) = ⟨.minus, n⟩ :: us → False := by
      intro n us he
      obtain ⟨⟨t, m⟩, ts₁, rfl, hl, -⟩ := List.map_eq_cons_iff.mp he
      cases hl
      exact hne m ts₁ rfl
    rw [signed, signed]
    · exact hpower
    · exact hne'
    · exact hne
  case power =>
    intro ts hatom hsigned
    rw [power, power]
    refine hatom.bind fun base ts₁ hn hm => ?_
    rcases ts₁ with _ | ⟨⟨t, n⟩, ts₂⟩
    · exact .ok ⟨rfl, rfl⟩
    · cases t with
      | caret => exact (hsigned n ts₂ hn).bind fun _ _ _ _ => .ok ⟨rfl, rfl⟩
      | _ => exact .ok ⟨rfl, rfl⟩
  case atEnd =>
    rw [List.map_nil, atom, atom]
    exact .error rfl
  case number =>
    intro text n ts₁
    rw [List.map_cons, Lexeme.renumber, atom, atom]
    exact .ok ⟨rfl, rfl⟩
  case name =>
    intro x n ts₁
    rw [List.map_cons, Lexeme.renumber, atom, atom]
    exact .ok ⟨rfl, rfl⟩
  case parens =>
    intro n ts₁ hsum
    rw [List.map_cons, Lexeme.renumber, atom, atom]
    exact hsum.bind fun _ ts₂ _ _ => (expect_natural f line .rightParen ts₂).bind fun _ _ _ _ => .ok ⟨rfl, rfl⟩
  case other =>
    rintro ⟨t, n⟩ ts₁ hnumber hname hparens
    rw [List.map_cons]
    cases t with
    | number text => exact (hnumber text n rfl).elim
    | word x => exact (hname x n rfl).elim
    | leftParen => exact (hparens n rfl).elim
    | _ =>
      rw [Lexeme.renumber, atom, atom]
      · exact .error rfl
      all_goals simp

/-! ## Statements -/

section Statements

variable (f : Nat → Nat) (line : Nat)

theorem literal_natural : Natural f id (literal line) (literal (f line)) := by
  have hnumber : Natural f id (mapRead Written.Literal.number (number line)) (mapRead .number (number (f line))) :=
    mapRead_natural (number_natural f line) fun _ => rfl
  rintro (_ | ⟨⟨t, n⟩, ts⟩)
  · exact .error rfl
  · cases t with
    | word text => exact .ok ⟨rfl, rfl⟩
    | quoted text => exact .ok ⟨rfl, rfl⟩
    | number text => exact hnumber (_ :: ts)
    | minus => exact hnumber (_ :: ts)
    | _ => exact .error rfl

theorem rangeEnd_natural (lower : String) : Natural f id (rangeEnd line lower) (rangeEnd (f line) lower) := by
  have hend : Natural f id (relax (mapRead (Written.Elements.between lower) (number line)))
      (relax (mapRead (.between lower) (number (f line)))) :=
    relax_natural (mapRead_natural (number_natural f line) fun _ => rfl)
  intro ts
  show Mirrors f id (if startsNumber ts then _ else _) (if startsNumber (ts.map (Lexeme.renumber f)) then _ else _)
  rw [startsNumber_renumber]
  split
  · exact hend ts
  · exact .ok ⟨rfl, rfl⟩

theorem rangeFrom_natural : Natural f id (rangeFrom line) (rangeFrom (f line)) :=
  andThen_natural (number_natural f line) fun lower =>
  andMaybe_natural (expect_natural f line .dotDot) fun _ =>
  rangeEnd_natural f line lower

theorem elements_natural : Natural f id (elements line) (elements (f line)) := by
  have hlisted : Natural f id (mapRead Written.Elements.listed (listUntil line (literal line) .rightBracket))
      (mapRead .listed (listUntil (f line) (literal (f line)) .rightBracket)) :=
    mapRead_natural (listUntil_natural (literal_natural f line) line .rightBracket) fun _ => by rw [List.map_id]; rfl
  have hbelow : Natural f id (mapRead Written.Elements.below (number line)) (mapRead .below (number (f line))) :=
    mapRead_natural (number_natural f line) fun _ => rfl
  rintro (_ | ⟨⟨t, n⟩, ts⟩)
  · exact rangeFrom_natural f line []
  · cases t with
    | leftBracket => exact (hlisted ts).behind
    | dotDot => exact (hbelow ts).behind
    | _ => exact rangeFrom_natural f line (_ :: ts)

theorem clause_natural : Natural f id (clause line) (clause (f line)) :=
  andThen_natural (identifier_natural f line) fun _ =>
  andThen_natural (expect_natural f line .equals) fun _ =>
  mapRead_natural (elements_natural f line) fun _ => rfl

theorem source_natural : Natural f id (source line) (source (f line)) := by
  have hinline : Natural f id (mapRead Written.Source.inline (elements line)) (mapRead .inline (elements (f line))) :=
    mapRead_natural (elements_natural f line) fun _ => rfl
  rintro (_ | ⟨⟨t, n⟩, ts⟩)
  · exact hinline []
  · cases t with
    | word name => exact .ok ⟨rfl, rfl⟩
    | _ => exact hinline (_ :: ts)

theorem binding_natural : Natural f id (binding line) (binding (f line)) :=
  andThen_natural (identifier_natural f line) fun _ =>
  andThen_natural (expect_natural f line .inWord) fun _ =>
  mapRead_natural (source_natural f line) fun _ => rfl

theorem bindings_natural : Natural f (List.map id) (bindings line) (bindings (f line)) := by
  have hends : ∀ ts : List Lexeme, endsBindings (ts.map (Lexeme.renumber f)) = endsBindings ts := by
    rintro (_ | ⟨⟨t, n⟩, ts⟩)
    · rfl
    · cases t <;> rfl
  exact unless_natural hends [] (relax_natural (chain_natural (binding_natural f line)))

theorem optionalRelation_natural : Natural f id optionalRelation optionalRelation := by
  rintro (_ | ⟨l, ts⟩)
  · exact .ok ⟨rfl, rfl⟩
  · have htoken : (l.renumber f).token = l.token := rfl
    rw [List.map_cons, optionalRelation, optionalRelation, htoken]
    split
    · exact .ok ⟨rfl, rfl⟩
    · exact .ok ⟨rfl, rfl⟩

theorem predicate_natural : Natural f id (predicate line) (predicate (f line)) :=
  andThen_natural (identifier_natural f line) fun _ =>
  optionally_natural (optionalRelation_natural f) fun _ =>
  mapRead_natural (number_natural f line) fun _ => rfl

theorem predicates_natural : Natural f (List.map id) (predicates line) (predicates (f line)) := by
  have hlist := listUntil_natural (predicate_natural f line) line .rightBracket
  rintro (_ | ⟨⟨t, n⟩, ts⟩)
  · exact .error rfl
  · cases t with
    | pipe => exact (hlist ts).behind
    | rightBracket => exact .ok ⟨rfl, rfl⟩
    | _ => exact .error rfl

theorem transform_natural : Natural f (Option.map (Expr.renumber f)) (transform line) (transform (f line)) := by
  have hlacks : ∀ ts : List Lexeme, lacksTransform (ts.map (Lexeme.renumber f)) = lacksTransform ts := by
    rintro (_ | ⟨⟨t, n⟩, ts⟩)
    · rfl
    · cases t <;> rfl
  exact unless_natural hlacks none (relax_natural (mapRead_natural (sum_natural f line) fun _ => rfl))

theorem comprehension_natural :
    Natural f (Written.Comprehension.renumber f) (comprehension line) (comprehension (f line)) :=
  andThen_natural (identifier_natural f line) fun _ =>
  andThen_natural (expect_natural f line .equals) fun _ =>
  andThen_natural (expect_natural f line .leftBracket) fun _ =>
  optionally_natural (transform_natural f line) fun _ =>
  andThen_natural (expect_natural f line .pipe) fun _ =>
  optionally_natural (bindings_natural f line) fun _ =>
  mapRead_natural (predicates_natural f line) fun _ => by rw [List.map_id, List.map_id]; rfl

theorem pipeInside_renumber (depth : Nat) (ts : List Lexeme) :
    pipeInside depth (ts.map (Lexeme.renumber f)) = pipeInside depth ts := by
  induction ts generalizing depth with
  | nil => rfl
  | cons l ts ih =>
    obtain ⟨t, n⟩ := l
    cases t with
    | rightBracket =>
      cases depth with
      | zero => rfl
      | succ depth => exact ih depth
    | pipe =>
      cases depth with
      | zero => rfl
      | succ depth => exact ih (depth + 1)
    | leftBracket => exact ih (depth + 1)
    | _ => exact ih depth

theorem startsComprehension_renumber (ts : List Lexeme) :
    startsComprehension (ts.map (Lexeme.renumber f)) = startsComprehension ts := by
  rcases ts with _ | ⟨⟨t₁, n₁⟩, ts⟩
  · rfl
  cases t₁ with
  | word name =>
    rcases ts with _ | ⟨⟨t₂, n₂⟩, ts⟩
    · rfl
    cases t₂ with
    | equals =>
      rcases ts with _ | ⟨⟨t₃, n₃⟩, ts⟩
      · rfl
      cases t₃ with
      | leftBracket => exact pipeInside_renumber f 0 ts
      | _ => rfl
    | _ => rfl
  | _ => rfl

theorem statement_natural : Natural f (Written.Statement.renumber f) (statement line) (statement (f line)) := by
  have hcomprehension : Natural f (Written.Statement.renumber f)
      (mapRead (fun c => ⟨.comprehension c, line⟩) (comprehension line))
      (mapRead (fun c => ⟨.comprehension c, f line⟩) (comprehension (f line))) :=
    mapRead_natural (comprehension_natural f line) fun _ => rfl
  have hdefinitions : Natural f (Written.Statement.renumber f)
      (mapRead (fun cs => ⟨.definitions cs, line⟩) (chain (clause line)))
      (mapRead (fun cs => ⟨.definitions cs, f line⟩) (chain (clause (f line)))) :=
    mapRead_natural (chain_natural (clause_natural f line)) fun _ => by rw [List.map_id]; rfl
  intro ts
  have hother : Mirrors f (Written.Statement.renumber f)
      (if startsComprehension ts then mapRead (fun c => ⟨.comprehension c, line⟩) (comprehension line) ts
        else mapRead (fun cs => ⟨.definitions cs, line⟩) (chain (clause line)) ts)
      (if startsComprehension (ts.map (Lexeme.renumber f)) then
          mapRead (fun c => ⟨.comprehension c, f line⟩) (comprehension (f line)) (ts.map (Lexeme.renumber f))
        else mapRead (fun cs => ⟨.definitions cs, f line⟩) (chain (clause (f line))) (ts.map (Lexeme.renumber f))) := by
    rw [startsComprehension_renumber]
    split
    · exact hcomprehension ts
    · exact hdefinitions ts
  rcases ts with _ | ⟨⟨t, n⟩, ts⟩
  · exact hother
  · cases t with
    | showWord => exact .ok ⟨rfl, rfl⟩
    | _ => exact hother

end Statements

end Grammar

/-- Whole inputs: the statement, or its error, is the same on other lines. -/
theorem Written.Statement.ofLexemes?_renumbered (f : Nat → Nat) (line : Nat) (ts : List Lexeme) :
    Renumbered f (fun w w' => w' = w.map (Written.Statement.renumber f)) (ofLexemes? line ts)
      (ofLexemes? (f line) (ts.map (Lexeme.renumber f))) := by
  cases ts with
  | nil => exact .ok rfl
  | cons l ts =>
    refine Related.bind (Grammar.statement_natural f line (l :: ts)) ?_
    rintro ⟨w, rest, hn⟩ ⟨w', rest', hm⟩ ⟨rfl, rfl⟩
    cases rest with
    | nil => exact .ok rfl
    | cons l ts => exact .error rfl

end Listwise

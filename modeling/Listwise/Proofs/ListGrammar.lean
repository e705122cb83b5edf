import Listwise.Proofs.Readers

/-!
# The grammar of lists

`Derivation.Elements` are the derivations of the elements of a list, `Derivation.Clause` those of a definition,
after the grammar in `Listwise.Grammar.Statement`.  A derivation knows the line of each of its lexemes (`yield`);
its meaning is what is written (`value`).

* `number_exact`, `literal_exact`, `elements_exact`, `clause_exact`: each reader and the derivations of its rule
  agree.  A range that is open above ends where no number follows.
-/

namespace Listwise.Grammar.Derivation

/-! ## Derivations -/

/-- `NAME mark body`, for some mark. -/
structure Headed (δ : Type) where
  name : String
  n : Nat
  mark : Nat
  body : δ
  deriving DecidableEq, Repr

/-- `["-"] NUMBER`. -/
inductive Number where
  | plain (digits : String) (n : Nat)
  | negative (minus : Nat) (digits : String) (n : Nat)
  deriving DecidableEq, Repr

/-- `number | NAME | TEXT`. -/
inductive Literal where
  | number (d : Number)
  | word (text : String) (n : Nat)
  | quoted (text : String) (n : Nat)
  deriving DecidableEq, Repr

/-- `"[" [literal ("," literal)*] "]" | number ".." number | number ".." | ".." number`. -/
inductive Elements where
  | listed (opening : Nat) (items : Option (Separated Literal)) (closing : Nat)
  | between (lower : Number) (dots : Nat) (upper : Number)
  | above (lower : Number) (dots : Nat)
  | below (dots : Nat) (upper : Number)
  deriving DecidableEq, Repr

/-- `NAME "=" elements`. -/
abbrev Clause := Headed Elements

/-! ## Lexemes and meanings -/

/-- The lexemes of a name, a mark and a body. -/
def Headed.yield {δ : Type} (mark : Token) (y : δ → List Lexeme) (d : Headed δ) : List Lexeme :=
  ⟨.word d.name, d.n⟩ :: ⟨mark, d.mark⟩ :: y d.body

/-- What a name and a body mean. -/
def Headed.value {α β δ : Type} (make : String → α → β) (v : δ → α) (d : Headed δ) : β :=
  make d.name (v d.body)

/-- The lexemes of a number. -/
def Number.yield : Number → List Lexeme
  | .plain digits n => [⟨.number digits, n⟩]
  | .negative minus digits n => [⟨.minus, minus⟩, ⟨.number digits, n⟩]

/-- The text of a number, with its sign. -/
def Number.value : Number → String
  | .plain digits _ => digits
  | .negative _ digits _ => "-" ++ digits

/-- The lexemes of an element. -/
def Literal.yield : Literal → List Lexeme
  | .number d => d.yield
  | .word text n => [⟨.word text, n⟩]
  | .quoted text n => [⟨.quoted text, n⟩]

/-- The element itself. -/
def Literal.value : Literal → Written.Literal
  | .number d => .number d.value
  | .word text _ => .text text
  | .quoted text _ => .text text

/-- The lexemes of a list. -/
def Elements.yield : Elements → List Lexeme
  | .listed opening items closing =>
    ⟨.leftBracket, opening⟩ :: (Separated.yield? Literal.yield items ++ [⟨.rightBracket, closing⟩])
  | .between lower dots upper => lower.yield ++ ⟨.dotDot, dots⟩ :: upper.yield
  | .above lower dots => lower.yield ++ [⟨.dotDot, dots⟩]
  | .below dots upper => ⟨.dotDot, dots⟩ :: upper.yield

/-- The list itself. -/
def Elements.value : Elements → Written.Elements
  | .listed _ items _ => .listed (Separated.values? Literal.value items)
  | .between lower _ upper => .between lower.value upper.value
  | .above lower _ => .above lower.value
  | .below _ upper => .below upper.value

/-- The lexemes of a definition. -/
def Clause.yield : Clause → List Lexeme := Headed.yield .equals Elements.yield

/-- The definition itself. -/
def Clause.value : Clause → Written.Clause := Headed.value .mk Elements.value

/-! ## Numbers and lists -/

section Lists

variable {line : Nat} {ts rest : List Lexeme}

/-- What comes behind a name and a mark is read as it is alone. -/
theorem headed_exact {α β δ : Type} {r : Reader α} {y : δ → List Lexeme} {v : δ → α}
    {follow : List Lexeme → Prop} (h : Exact r y v follow) (line : Nat) (mark : Token) (make : String → α → β) :
    Exact (andThen (identifier line) fun name => andThen (expect line mark) fun _ => mapRead (make name) r)
      (Headed.yield mark y) (Headed.value make v) follow where
  sound := by
    intro ts x rest hg
    simp only [gives_andThen, gives_identifier, gives_expect, gives_mapRead] at hg
    obtain ⟨name, _, ⟨n, rfl⟩, -, ts₁, ⟨m, rfl⟩, x, rfl, hx⟩ := hg
    obtain ⟨d, rfl, rfl⟩ := h.sound hx
    exact ⟨⟨name, n, m, d⟩, rfl, rfl⟩
  complete := by
    rintro ⟨name, n, m, d⟩ rest hr
    simp only [gives_andThen, gives_identifier, gives_expect, gives_mapRead]
    exact ⟨name, _, ⟨n, rfl⟩, (), _, ⟨m, rfl⟩, v d, rfl, h.complete d hr⟩
  unique := by
    rintro ⟨name, n, m, d⟩ ⟨name', n', m', d'⟩ rest rest' hr hr' he
    simp only [Headed.yield, List.cons_append, List.cons.injEq, Lexeme.mk.injEq, Token.word.injEq] at he
    obtain ⟨⟨rfl, rfl⟩, ⟨-, rfl⟩, he⟩ := he
    rw [h.unique hr hr' he]

/-- A number is read exactly. -/
theorem number_exact (line : Nat) : Exact (number line) Number.yield Number.value (fun _ => True) where
  sound := by
    intro ts text rest hg
    rcases gives_number.mp hg with ⟨n, rfl⟩ | ⟨digits, m, n, rfl, rfl⟩
    · exact ⟨.plain text n, rfl, rfl⟩
    · exact ⟨.negative m digits n, rfl, rfl⟩
  complete := by
    intro d rest _
    cases d with
    | plain digits n => exact gives_number.mpr (.inl ⟨n, rfl⟩)
    | negative m digits n => exact gives_number.mpr (.inr ⟨digits, m, n, rfl, rfl⟩)
  unique := by
    intro d d' rest rest' _ _ he
    cases d <;> cases d' <;> cases he <;> rfl

theorem startsNumber_yield (d : Number) (rest : List Lexeme) : startsNumber (d.yield ++ rest) = true := by
  cases d <;> rfl

theorem startsNumber_of_gives {text : String} (h : Gives (number line ts) text rest) :
    startsNumber ts = true := by
  obtain ⟨d, -, rfl⟩ := (number_exact line).sound h
  exact startsNumber_yield d _

theorem gives_literal {x : Written.Literal} :
    Gives (literal line ts) x rest ↔
      (∃ text n, ts = ⟨.word text, n⟩ :: rest ∧ x = .text text) ∨
      (∃ text n, ts = ⟨.quoted text, n⟩ :: rest ∧ x = .text text) ∨
      ∃ text, x = .number text ∧ Gives (number line ts) text rest := by
  rw [literal.eq_def]
  split
  case h_1 =>
    simp only [not_gives_error, false_iff]
    rintro (⟨text, n, he, -⟩ | ⟨text, n, he, -⟩ | ⟨text, -, hg⟩)
    · cases he
    · cases he
    · cases startsNumber_of_gives hg
  case h_2 text n ts₁ =>
    rw [gives_ok]
    constructor
    · rintro ⟨rfl, rfl⟩
      exact .inl ⟨text, n, rfl, rfl⟩
    · rintro (⟨text', n', he, rfl⟩ | ⟨text', n', he, -⟩ | ⟨text', -, hg⟩)
      · cases he
        exact ⟨rfl, rfl⟩
      · cases he
      · cases startsNumber_of_gives hg
  case h_3 text n ts₁ =>
    rw [gives_ok]
    constructor
    · rintro ⟨rfl, rfl⟩
      exact .inr (.inl ⟨text, n, rfl, rfl⟩)
    · rintro (⟨text', n', he, -⟩ | ⟨text', n', he, rfl⟩ | ⟨text', -, hg⟩)
      · cases he
      · cases he
        exact ⟨rfl, rfl⟩
      · cases startsNumber_of_gives hg
  case h_4 l ts₁ hword hquoted =>
    have hnumber : Gives (if startsNumber (l :: ts₁) then mapRead .number (number line) (l :: ts₁)
          else .error (unexpected .listElement l)) x rest ↔
        ∃ text, x = .number text ∧ Gives (number line (l :: ts₁)) text rest := by
      split_ifs with h
      · rw [gives_mapRead]
        simp only [eq_comm]
      · simp only [not_gives_error, false_iff]
        rintro ⟨text, -, hg⟩
        exact h (startsNumber_of_gives hg)
    rw [hnumber]
    constructor
    · exact fun h => .inr (.inr h)
    · rintro (⟨text, n, he, -⟩ | ⟨text, n, he, -⟩ | h)
      · cases he
        exact absurd rfl (hword _ _)
      · cases he
        exact absurd rfl (hquoted _ _)
      · exact h

/-- An element is read exactly. -/
theorem literal_exact (line : Nat) :
    Exact (literal line) Literal.yield Literal.value (fun _ => True) where
  sound := by
    intro ts x rest hg
    rcases gives_literal.mp hg with ⟨text, n, rfl, rfl⟩ | ⟨text, n, rfl, rfl⟩ | ⟨text, rfl, hn⟩
    · exact ⟨.word text n, rfl, rfl⟩
    · exact ⟨.quoted text n, rfl, rfl⟩
    · obtain ⟨d, rfl, rfl⟩ := (number_exact line).sound hn
      exact ⟨.number d, rfl, rfl⟩
  complete := by
    intro d rest _
    cases d with
    | number d => exact gives_literal.mpr (.inr (.inr ⟨_, rfl, (number_exact line).complete d trivial⟩))
    | word text n => exact gives_literal.mpr (.inl ⟨text, n, rfl, rfl⟩)
    | quoted text n => exact gives_literal.mpr (.inr (.inl ⟨text, n, rfl, rfl⟩))
  unique := by
    intro d d' rest rest' _ _ he
    cases d with
    | number d =>
      cases d' with
      | number d' => rw [(number_exact line).unique trivial trivial he]
      | word text' n' => cases d <;> cases he
      | quoted text' n' => cases d <;> cases he
    | word text n =>
      cases d' with
      | number d' => cases d' <;> cases he
      | word text' n' => cases he; rfl
      | quoted text' n' => cases he
    | quoted text n =>
      cases d' with
      | number d' => cases d' <;> cases he
      | word text' n' => cases he
      | quoted text' n' => cases he; rfl

theorem literal_ne_rightBracket (d : Literal) (n : Nat) (ts ts' : List Lexeme) :
    d.yield ++ ts ≠ ⟨.rightBracket, n⟩ :: ts' := by
  intro he
  cases d with
  | number d => cases d <;> cases he
  | word text m => cases he
  | quoted text m => cases he

/-- The elements between two brackets are read exactly. -/
theorem literals_exact (line : Nat) : Exact (listUntil line (literal line) .rightBracket)
    (fun d : Option (Separated Literal) × Nat => Separated.yield? Literal.yield d.1 ++ [⟨.rightBracket, d.2⟩])
    (fun d => Separated.values? Literal.value d.1) (fun _ => True) :=
  listUntil_exact (literal_exact line) (fun _ _ => trivial) (by decide) (fun _ _ => trivial)
    literal_ne_rightBracket

theorem gives_rangeEnd {lower : String} {es : Written.Elements} :
    Gives (rangeEnd line lower ts) es rest ↔
      (∃ upper, es = .between lower upper ∧ Gives (number line ts) upper rest) ∨
      (startsNumber ts = false ∧ es = .above lower ∧ ts = rest) := by
  unfold rangeEnd
  split_ifs with h
  · rw [gives_relax, gives_mapRead]
    simp [h, eq_comm]
  · have hn : ∀ upper, ¬ Gives (number line ts) upper rest := fun _ hg => h (startsNumber_of_gives hg)
    simp [h, hn, Taken.keep, eq_comm]

theorem gives_rangeFrom {es : Written.Elements} :
    Gives (rangeFrom line ts) es rest ↔
      ∃ lower n ts₁, Gives (number line ts) lower (⟨.dotDot, n⟩ :: ts₁) ∧
        Gives (rangeEnd line lower ts₁) es rest := by
  unfold rangeFrom
  simp only [gives_andThen, gives_andMaybe, gives_expect]
  constructor
  · rintro ⟨lower, _, hl, -, ts₁, ⟨n, rfl⟩, he⟩
    exact ⟨lower, n, ts₁, hl, he⟩
  · rintro ⟨lower, n, ts₁, hl, he⟩
    exact ⟨lower, _, hl, (), ts₁, ⟨n, rfl⟩, he⟩

theorem startsNumber_of_gives_rangeFrom {es : Written.Elements} (h : Gives (rangeFrom line ts) es rest) :
    startsNumber ts = true := by
  obtain ⟨lower, n, ts₁, hl, -⟩ := gives_rangeFrom.mp h
  exact startsNumber_of_gives hl

theorem gives_elements {es : Written.Elements} :
    Gives (elements line ts) es rest ↔
      (∃ n ts₁ items, ts = ⟨.leftBracket, n⟩ :: ts₁ ∧ es = .listed items ∧
        Gives (listUntil line (literal line) .rightBracket ts₁) items rest) ∨
      (∃ n ts₁ upper, ts = ⟨.dotDot, n⟩ :: ts₁ ∧ es = .below upper ∧ Gives (number line ts₁) upper rest) ∨
      Gives (rangeFrom line ts) es rest := by
  rw [elements.eq_def]
  split
  case h_1 n ts₁ =>
    rw [gives_behind, gives_mapRead]
    constructor
    · rintro ⟨items, rfl, hg⟩
      exact .inl ⟨n, ts₁, items, rfl, rfl, hg⟩
    · rintro (⟨n', ts₁', items, he, rfl, hg⟩ | ⟨n', ts₁', upper, he, -, -⟩ | hg)
      · cases he
        exact ⟨items, rfl, hg⟩
      · cases he
      · cases startsNumber_of_gives_rangeFrom hg
  case h_2 n ts₁ =>
    rw [gives_behind, gives_mapRead]
    constructor
    · rintro ⟨upper, rfl, hg⟩
      exact .inr (.inl ⟨n, ts₁, upper, rfl, rfl, hg⟩)
    · rintro (⟨n', ts₁', items, he, -, -⟩ | ⟨n', ts₁', upper, he, rfl, hg⟩ | hg)
      · cases he
      · cases he
        exact ⟨upper, rfl, hg⟩
      · cases startsNumber_of_gives_rangeFrom hg
  case h_3 hbracket hdots =>
    constructor
    · exact fun h => .inr (.inr h)
    · rintro (⟨n', ts₁', items, he, -, -⟩ | ⟨n', ts₁', upper, he, -, -⟩ | hg)
      · exact absurd he (hbracket _ _)
      · exact absurd he (hdots _ _)
      · exact hg

theorem elements_sound {es : Written.Elements} (hg : Gives (elements line ts) es rest) :
    ∃ d : Elements, d.value = es ∧ ts = d.yield ++ rest := by
  rcases gives_elements.mp hg with ⟨n, ts₁, items, rfl, rfl, hl⟩ | ⟨n, ts₁, upper, rfl, rfl, hu⟩ | hr
  · obtain ⟨⟨items, m⟩, rfl, rfl⟩ := (literals_exact line).sound hl
    exact ⟨.listed n items m, rfl, rfl⟩
  · obtain ⟨d, rfl, rfl⟩ := (number_exact line).sound hu
    exact ⟨.below n d, rfl, rfl⟩
  · obtain ⟨lower, n, ts₁, hl, he⟩ := gives_rangeFrom.mp hr
    obtain ⟨d, rfl, rfl⟩ := (number_exact line).sound hl
    rcases gives_rangeEnd.mp he with ⟨upper, rfl, hu⟩ | ⟨-, rfl, rfl⟩
    · obtain ⟨d', rfl, rfl⟩ := (number_exact line).sound hu
      exact ⟨.between d n d', rfl, by simp [Elements.yield]⟩
    · exact ⟨.above d n, rfl, by simp [Elements.yield]⟩

theorem elements_complete (d : Elements) (hr : startsNumber rest = false) :
    Gives (elements line (d.yield ++ rest)) d.value rest := by
  have hnumber : ∀ (d : Number) rest, Gives (number line (d.yield ++ rest)) d.value rest :=
    fun d _ => (number_exact line).complete d trivial
  cases d with
  | listed n items m =>
    exact gives_elements.mpr
      (.inl ⟨n, _, _, rfl, rfl, (literals_exact line).complete (items, m) trivial⟩)
  | between lower n upper =>
    rw [Elements.yield, List.append_assoc, List.cons_append]
    exact gives_elements.mpr (.inr (.inr (gives_rangeFrom.mpr ⟨_, n, _, hnumber lower _,
      gives_rangeEnd.mpr (.inl ⟨_, rfl, hnumber upper rest⟩)⟩)))
  | above lower n =>
    rw [Elements.yield, List.append_assoc, List.singleton_append]
    exact gives_elements.mpr (.inr (.inr (gives_rangeFrom.mpr ⟨_, n, _, hnumber lower _,
      gives_rangeEnd.mpr (.inr ⟨hr, rfl, rfl⟩)⟩)))
  | below n upper => exact gives_elements.mpr (.inr (.inl ⟨n, _, _, rfl, rfl, hnumber upper rest⟩))

theorem number_cancel {d d' : Number} {ts ts' : List Lexeme} (he : d.yield ++ ts = d'.yield ++ ts') :
    d = d' ∧ ts = ts' :=
  (number_exact 0).cancel trivial trivial he

theorem range_cancel {d d' : Number} {n n' : Nat} {ts ts' : List Lexeme}
    (he : d.yield ++ ⟨.dotDot, n⟩ :: ts = d'.yield ++ ⟨.dotDot, n'⟩ :: ts') : d = d' ∧ n = n' ∧ ts = ts' := by
  obtain ⟨rfl, hdots⟩ := number_cancel he
  cases hdots
  exact ⟨rfl, rfl, rfl⟩

theorem elements_unique {d d' : Elements} {rest' : List Lexeme} (hr : startsNumber rest = false)
    (hr' : startsNumber rest' = false) (he : d.yield ++ rest = d'.yield ++ rest') : d = d' := by
  cases d with
  | listed n items m =>
    cases d' with
    | listed n' items' m' =>
      obtain ⟨hn, hitems⟩ := List.cons_eq_cons.mp he
      cases hn
      have hd : (items, m) = (items', m') := (literals_exact 0).unique trivial trivial hitems
      cases hd
      rfl
    | between lower' n' upper' => cases lower' <;> cases he
    | above lower' n' => cases lower' <;> cases he
    | below n' upper' => cases he
  | between lower n upper =>
    cases d' with
    | listed n' items' m' => cases lower <;> cases he
    | between lower' n' upper' =>
      simp only [Elements.yield, List.append_assoc, List.cons_append] at he
      obtain ⟨rfl, rfl, hupper⟩ := range_cancel he
      rw [(number_cancel hupper).1]
    | above lower' n' =>
      simp only [Elements.yield, List.append_assoc, List.cons_append] at he
      -- a number behind the dots is the upper end
      obtain ⟨-, -, hupper⟩ := range_cancel he
      rw [List.nil_append] at hupper
      rw [← hupper, startsNumber_yield] at hr'
      cases hr'
    | below n' upper' => cases lower <;> cases he
  | above lower n =>
    cases d' with
    | listed n' items' m' => cases lower <;> cases he
    | between lower' n' upper' =>
      simp only [Elements.yield, List.append_assoc, List.cons_append] at he
      obtain ⟨-, -, hupper⟩ := range_cancel he
      rw [List.nil_append] at hupper
      rw [hupper, startsNumber_yield] at hr
      cases hr
    | above lower' n' =>
      simp only [Elements.yield, List.append_assoc, List.cons_append] at he
      obtain ⟨rfl, rfl, -⟩ := range_cancel he
      rfl
    | below n' upper' => cases lower <;> cases he
  | below n upper =>
    cases d' with
    | listed n' items' m' => cases he
    | between lower' n' upper' => cases lower' <;> cases he
    | above lower' n' => cases lower' <;> cases he
    | below n' upper' =>
      obtain ⟨hn, hupper⟩ := List.cons_eq_cons.mp he
      cases hn
      rw [(number_cancel hupper).1]

/-- The elements of a list are read exactly, if no number follows. -/
theorem elements_exact (line : Nat) :
    Exact (elements line) Elements.yield Elements.value (fun rest => startsNumber rest = false) where
  sound := elements_sound
  complete d _ hr := elements_complete d hr
  unique := elements_unique

theorem elements_ne_word (d : Elements) (name : String) (n : Nat) (ts ts' : List Lexeme) :
    d.yield ++ ts ≠ ⟨.word name, n⟩ :: ts' := by
  intro he
  cases d with
  | listed m items k => cases he
  | between lower m upper => cases lower <;> cases he
  | above lower m => cases lower <;> cases he
  | below m upper => cases he

/-- A definition is read exactly, if no number follows. -/
theorem clause_exact (line : Nat) :
    Exact (clause line) Clause.yield Clause.value (fun rest => startsNumber rest = false) :=
  headed_exact (elements_exact line) line .equals Written.Clause.mk

end Lists

end Listwise.Grammar.Derivation

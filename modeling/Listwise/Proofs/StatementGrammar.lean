import Listwise.Proofs.ArithmeticGrammar
import Listwise.Proofs.ListGrammar

/-!
# The grammar of statements

`Derivation.Statement` are the derivations of the grammar in `Listwise.Grammar.Statement`: `show`, comprehensions, and
the definitions of `Listwise.Proofs.ListGrammar`.

* `source_exact`, …, `comprehension_exact`: each reader and the derivations of its rule agree.
* `pipeInside_append`: the search for a `|` passes over everything that stands between two brackets.
* `parse?_eq_some`: what a text is read as.
* `statements_have_one_derivation`: lexemes are a statement exactly if they have a derivation, which is the only
  one, and the look ahead tells comprehensions from definitions.
-/

namespace Listwise.Grammar.Derivation

/-! ## Derivations -/

/-- `NAME | elements`. -/
inductive Source where
  | list (name : String) (n : Nat)
  | inline (elements : Elements)
  deriving DecidableEq, Repr

/-- `NAME "in" source`. -/
abbrev Binding := Headed Source

/-- `"==" | "=" | ">" | ">=" | "<" | "<="`. -/
inductive Comparison where
  | equalEqual
  | equals
  | greater
  | greaterEqual
  | less
  | lessEqual
  deriving DecidableEq, Repr

/-- `NAME [comparison] number`. -/
structure Predicate where
  operand : String
  n : Nat
  comparison : Option (Comparison × Nat)
  threshold : Number
  deriving DecidableEq, Repr

/-- The end of a comprehension: `["|" [predicate ("," predicate)*]] "]"`. -/
inductive Predicates where
  | missing (closing : Nat)
  | listed (pipe : Nat) (items : Option (Separated Predicate)) (closing : Nat)
  deriving DecidableEq, Repr

/-- `NAME "=" "[" [sum] "|" [binding ("," binding)*] predicates`. -/
structure Comprehension where
  result : String
  n : Nat
  equals : Nat
  opening : Nat
  transform : Option (Arith .sum)
  pipe : Nat
  bindings : Option (Separated Binding)
  predicates : Predicates

/-- `"show" | comprehension | clause ("," clause)*`. -/
inductive Statement where
  | showAll (n : Nat)
  | definitions (clauses : Separated Clause)
  | comprehension (c : Comprehension)

/-! ## Lexemes and meanings -/

/-- The lexemes of what a variable runs through. -/
def Source.yield : Source → List Lexeme
  | .list name n => [⟨.word name, n⟩]
  | .inline elements => elements.yield

/-- What a variable runs through. -/
def Source.value : Source → Written.Source
  | .list name _ => .list name
  | .inline elements => .inline elements.value

/-- The lexemes of a binding. -/
def Binding.yield : Binding → List Lexeme := Headed.yield .inWord Source.yield

/-- The binding itself. -/
def Binding.value : Binding → Written.Binding := Headed.value .mk Source.value

/-- The token of a comparison. -/
def Comparison.token : Comparison → Token
  | .equalEqual => .equalEqual
  | .equals => .equals
  | .greater => .greater
  | .greaterEqual => .greaterEqual
  | .less => .less
  | .lessEqual => .lessEqual

/-- The relation that a comparison stands for. -/
def Comparison.value : Comparison → Relation
  | .equalEqual => .eq
  | .equals => .eq
  | .greater => .gt
  | .greaterEqual => .ge
  | .less => .lt
  | .lessEqual => .le

/-- The lexemes of a comparison that may be missing. -/
def Comparison.yield? : Option (Comparison × Nat) → List Lexeme
  | none => []
  | some (c, n) => [⟨c.token, n⟩]

/-- The lexemes of a predicate. -/
def Predicate.yield (d : Predicate) : List Lexeme :=
  ⟨.word d.operand, d.n⟩ :: (Comparison.yield? d.comparison ++ d.threshold.yield)

/-- The predicate itself. -/
def Predicate.value (d : Predicate) : Written.Predicate :=
  ⟨d.operand, d.comparison.map (·.1.value), d.threshold.value⟩

/-- The lexemes of the end of a comprehension. -/
def Predicates.yield : Predicates → List Lexeme
  | .missing closing => [⟨.rightBracket, closing⟩]
  | .listed pipe items closing =>
    ⟨.pipe, pipe⟩ :: (Separated.yield? Predicate.yield items ++ [⟨.rightBracket, closing⟩])

/-- The predicates of a comprehension. -/
def Predicates.value : Predicates → List Written.Predicate
  | .missing _ => []
  | .listed _ items _ => Separated.values? Predicate.value items

/-- The lexemes of a comprehension. -/
def Comprehension.yield (d : Comprehension) : List Lexeme :=
  ⟨.word d.result, d.n⟩ :: ⟨.equals, d.equals⟩ :: ⟨.leftBracket, d.opening⟩ ::
    (d.transform.elim [] Arith.yield ++ ⟨.pipe, d.pipe⟩ ::
      (Separated.yield? Binding.yield d.bindings ++ d.predicates.yield))

/-- The comprehension itself. -/
def Comprehension.value (d : Comprehension) : Written.Comprehension :=
  ⟨d.result, d.transform.map Arith.tree, Separated.values? Binding.value d.bindings, d.predicates.value⟩

/-- The lexemes of a statement. -/
def Statement.yield : Statement → List Lexeme
  | .showAll n => [⟨.showWord, n⟩]
  | .definitions clauses => clauses.yield Clause.yield
  | .comprehension c => c.yield

/-- The statement itself.  `show` stands on the line of its word, other statements on the given one. -/
def Statement.value (line : Nat) : Statement → Written.Statement
  | .showAll n => ⟨.showAll, n⟩
  | .definitions clauses => ⟨.definitions (clauses.values Clause.value), line⟩
  | .comprehension c => ⟨.comprehension c.value, line⟩

/-! ## Between brackets -/

section Between

variable {δ : Type} {ts rest : List Lexeme}

/-- Whether the search for a `|` passes over a token. -/
def isInner : Token → Bool
  | .leftBracket => false
  | .rightBracket => false
  | .pipe => false
  | _ => true

theorem pipeInside_append (h : ∀ l ∈ ts, isInner l.token = true) (depth : Nat) :
    pipeInside depth (ts ++ rest) = pipeInside depth rest := by
  induction ts with
  | nil => rfl
  | cons l ts ih =>
    obtain ⟨hl, hts⟩ := List.forall_mem_cons.mp h
    obtain ⟨t, n⟩ := l
    cases t <;> first | exact ih hts | cases hl

theorem isInner_arith {l : Level} (d : Arith l) : ∀ t ∈ d.yield, isInner t.token = true := by
  induction d with
  | ofProduct p ih => exact ih
  | ofSigned s ih => exact ih
  | chained left s n right ihl ihr =>
    have hs : isInner s.token = true := by cases s <;> rfl
    simpa [Arith.yield, or_imp, forall_and, hs] using ⟨ihl, ihr⟩
  | ofPower p ih => exact ih
  | negate n x ih => exact List.forall_mem_cons.mpr ⟨rfl, ih⟩
  | ofAtom a ih => exact ih
  | raise b n x ihb ihx => simpa [Arith.yield, or_imp, forall_and, isInner] using ⟨ihb, ihx⟩
  | number text n => simp [Arith.yield, isInner]
  | name x n => simp [Arith.yield, isInner]
  | parens n inner m ih => simpa [Arith.yield, or_imp, forall_and, isInner] using ih

theorem isInner_literal (d : Literal) : ∀ t ∈ d.yield, isInner t.token = true := by
  cases d with
  | number d => cases d <;> simp [Literal.yield, Number.yield, isInner]
  | word text n => simp [Literal.yield, isInner]
  | quoted text n => simp [Literal.yield, isInner]

theorem isInner_separated {y : δ → List Lexeme} (h : ∀ d, ∀ t ∈ y d, isInner t.token = true)
    (s : Separated δ) : ∀ t ∈ s.yield y, isInner t.token = true := by
  induction s with
  | last d => exact h d
  | more d n s ih => simpa [Separated.yield, or_imp, forall_and, isInner] using ⟨h d, ih⟩

theorem isInner_elim {y : δ → List Lexeme} (h : ∀ d, ∀ t ∈ y d, isInner t.token = true) (o : Option δ) :
    ∀ t ∈ o.elim [] y, isInner t.token = true := by
  cases o with
  | none => exact fun _ ht => absurd ht List.not_mem_nil
  | some d => exact h d

/-- An expression begins with such a token. -/
theorem exists_cons_arith {l : Level} (d : Arith l) : ∃ t ts, d.yield = t :: ts ∧ isInner t.token = true := by
  have hpos : 0 < d.yield.length := by
    rw [length_yield]
    exact size_pos d.tree
  obtain ⟨t, ts, h⟩ := List.exists_cons_of_length_pos hpos
  exact ⟨t, ts, h, isInner_arith d t (by rw [h]; exact List.mem_cons_self)⟩

end Between

/-! ## Comprehensions -/

section Comprehensions

variable {line : Nat} {ts rest : List Lexeme}

theorem gives_source {src : Written.Source} :
    Gives (source line ts) src rest ↔
      (∃ name n, ts = ⟨.word name, n⟩ :: rest ∧ src = .list name) ∨
      ∃ es, src = .inline es ∧ Gives (elements line ts) es rest := by
  rw [source.eq_def]
  split
  case h_1 name n ts₁ =>
    rw [gives_ok]
    constructor
    · rintro ⟨rfl, rfl⟩
      exact .inl ⟨name, n, rfl, rfl⟩
    · rintro (⟨name', n', he, rfl⟩ | ⟨es, -, hg⟩)
      · cases he
        exact ⟨rfl, rfl⟩
      · obtain ⟨d, -, he⟩ := (elements_exact line).sound hg
        exact absurd he.symm (elements_ne_word d name n _ _)
  case h_2 hword =>
    rw [gives_mapRead]
    constructor
    · rintro ⟨es, rfl, hg⟩
      exact .inr ⟨es, rfl, hg⟩
    · rintro (⟨name, n, he, -⟩ | ⟨es, rfl, hg⟩)
      · exact absurd he (hword _ _ _)
      · exact ⟨es, rfl, hg⟩

/-- What a variable runs through is read exactly, if no number follows. -/
theorem source_exact (line : Nat) :
    Exact (source line) Source.yield Source.value (fun rest => startsNumber rest = false) where
  sound := by
    intro ts src rest hg
    rcases gives_source.mp hg with ⟨name, n, rfl, rfl⟩ | ⟨es, rfl, he⟩
    · exact ⟨.list name n, rfl, rfl⟩
    · obtain ⟨d, rfl, rfl⟩ := (elements_exact line).sound he
      exact ⟨.inline d, rfl, rfl⟩
  complete := by
    intro d rest hr
    cases d with
    | list name n => exact gives_source.mpr (.inl ⟨name, n, rfl, rfl⟩)
    | inline d => exact gives_source.mpr (.inr ⟨_, rfl, (elements_exact line).complete d hr⟩)
  unique := by
    intro d d' rest rest' hr hr' he
    cases d with
    | list name n =>
      cases d' with
      | list name' n' =>
        cases he
        rfl
      | inline d' => exact absurd he.symm (elements_ne_word d' name n _ _)
    | inline d =>
      cases d' with
      | list name' n' => exact absurd he (elements_ne_word d name' n' _ _)
      | inline d' => rw [(elements_exact line).unique hr hr' he]

/-- A binding is read exactly, if no number follows. -/
theorem binding_exact (line : Nat) :
    Exact (binding line) Binding.yield Binding.value (fun rest => startsNumber rest = false) :=
  headed_exact (source_exact line) line .inWord Written.Binding.mk

/-- Bindings, possibly none, are read exactly, if the bracket or a `|` follows. -/
theorem bindings_exact (line : Nat) : Exact (bindings line) (Separated.yield? Binding.yield)
    (Separated.values? Binding.value) (fun rest => endsBindings rest = true) := by
  refine optional_exact (chain_exact (binding_exact line) fun _ _ => rfl) endsBindings [] ?_ ?_
  · intro rest hr
    unfold endsBindings at hr
    split at hr
    · exact ⟨rfl, rfl⟩
    · exact ⟨rfl, rfl⟩
    · cases hr
  · intro s rest
    cases s <;> rfl

/-- The transform is read exactly, if a `|` follows. -/
theorem transform_exact (line : Nat) : Exact (transform line)
    (fun d : Option (Arith .sum) => d.elim [] Arith.yield) (Option.map Arith.tree)
    (fun rest => lacksTransform rest = true) := by
  have hvalue : (Option.map Arith.tree : Option (Arith .sum) → _) = fun d => d.elim none (some ·.tree) := by
    funext d
    cases d <;> rfl
  rw [hvalue]
  refine optional_exact (mapRead_exact (arithmetic_exact line .sum) some) lacksTransform none ?_ ?_
  · intro rest hr
    unfold lacksTransform at hr
    split at hr
    · rfl
    · cases hr
  · intro d rest
    obtain ⟨t, ts, hd, ht⟩ := exists_cons_arith d
    rw [hd, List.cons_append]
    unfold lacksTransform
    split
    · next he =>
      cases he
      cases ht
    · rfl

theorem relation?_token (c : Comparison) : relation? c.token = some c.value := by
  cases c <;> rfl

theorem relation?_eq_some {t : Token} {r : Relation} (h : relation? t = some r) :
    ∃ c : Comparison, c.token = t ∧ c.value = r := by
  cases t <;> cases h
  · exact ⟨.equals, rfl, rfl⟩
  · exact ⟨.equalEqual, rfl, rfl⟩
  · exact ⟨.lessEqual, rfl, rfl⟩
  · exact ⟨.greaterEqual, rfl, rfl⟩
  · exact ⟨.less, rfl, rfl⟩
  · exact ⟨.greater, rfl, rfl⟩

theorem relation?_of_startsNumber {l : Lexeme} (h : startsNumber (l :: ts) = true) :
    relation? l.token = none := by
  unfold startsNumber at h
  split at h
  · next he => cases he; rfl
  · next he => cases he; rfl
  · cases h

theorem Comparison.token_injective {c c' : Comparison} (h : c.token = c'.token) : c = c' := by
  cases c <;> cases c' <;> first | rfl | cases h

/-- A comparison that may be missing is read exactly, if a number follows. -/
theorem optionalRelation_exact : Exact optionalRelation Comparison.yield? (Option.map (·.1.value))
    (fun rest => startsNumber rest = true) where
  sound := by
    intro ts r rest hg
    rw [optionalRelation.eq_def] at hg
    split at hg
    · obtain ⟨rfl, rfl⟩ := gives_ok.mp hg
      exact ⟨none, rfl, rfl⟩
    · next l ts =>
      split at hg
      · next r hr =>
        obtain ⟨rfl, rfl⟩ := gives_ok.mp hg
        obtain ⟨c, ht, rfl⟩ := relation?_eq_some hr
        exact ⟨some (c, l.line), rfl, by rw [Comparison.yield?, ht]; rfl⟩
      · obtain ⟨rfl, rfl⟩ := gives_ok.mp hg
        exact ⟨none, rfl, rfl⟩
  complete := by
    intro d rest hr
    cases d with
    | none =>
      cases rest with
      | nil => cases hr
      | cons l ts =>
        show Gives (optionalRelation (l :: ts)) none (l :: ts)
        rw [optionalRelation, relation?_of_startsNumber hr]
        exact gives_ok.mpr ⟨rfl, rfl⟩
    | some d =>
      obtain ⟨c, n⟩ := d
      show Gives (optionalRelation (⟨c.token, n⟩ :: rest)) (some c.value) rest
      simp only [optionalRelation, relation?_token]
      exact gives_ok.mpr ⟨rfl, rfl⟩
  unique := by
    intro d d' rest rest' hr hr' he
    cases d with
    | none =>
      cases d' with
      | none => rfl
      | some d' =>
        obtain ⟨c', n'⟩ := d'
        cases he
        have hc := relation?_of_startsNumber hr
        rw [relation?_token] at hc
        cases hc
    | some d =>
      obtain ⟨c, n⟩ := d
      cases d' with
      | none =>
        cases he
        have hc := relation?_of_startsNumber hr'
        rw [relation?_token] at hc
        cases hc
      | some d' =>
        obtain ⟨c', n'⟩ := d'
        obtain ⟨hl, -⟩ := List.cons_eq_cons.mp he
        simp only [Lexeme.mk.injEq] at hl
        obtain ⟨ht, rfl⟩ := hl
        rw [Comparison.token_injective ht]

/-- A predicate is read exactly. -/
theorem predicate_exact (line : Nat) :
    Exact (predicate line) Predicate.yield Predicate.value (fun _ => True) where
  sound := by
    intro ts p rest hg
    unfold predicate at hg
    simp only [gives_andThen, gives_optionally, gives_identifier, gives_mapRead] at hg
    obtain ⟨operand, ts₁, ⟨n, rfl⟩, r, ts₂, hr, text, rfl, hn⟩ := hg
    obtain ⟨c, rfl, rfl⟩ := optionalRelation_exact.sound hr
    obtain ⟨d, rfl, rfl⟩ := (number_exact line).sound hn
    exact ⟨⟨operand, n, c, d⟩, rfl, by simp [Predicate.yield]⟩
  complete := by
    rintro ⟨operand, n, c, d⟩ rest -
    have hc := optionalRelation_exact.complete c (startsNumber_yield d rest)
    have hd : Gives (number line (d.yield ++ rest)) d.value rest := (number_exact line).complete d trivial
    show Gives (predicate line (⟨.word operand, n⟩ :: (Comparison.yield? c ++ d.yield ++ rest))) _ rest
    rw [List.append_assoc]
    unfold predicate
    simp only [gives_andThen, gives_optionally, gives_identifier, gives_mapRead]
    exact ⟨operand, _, ⟨n, rfl⟩, _, _, hc, d.value, rfl, hd⟩
  unique := by
    rintro ⟨operand, n, c, d⟩ ⟨operand', n', c', d'⟩ rest rest' - - he
    simp only [Predicate.yield, List.cons_append, List.append_assoc, List.cons.injEq, Lexeme.mk.injEq,
      Token.word.injEq] at he
    obtain ⟨⟨rfl, rfl⟩, he⟩ := he
    obtain ⟨rfl, hd⟩ := optionalRelation_exact.cancel (startsNumber_yield d _) (startsNumber_yield d' _) he
    rw [(number_exact line).unique trivial trivial hd]

/-- The predicates up to the bracket are read exactly. -/
theorem predicateList_exact (line : Nat) : Exact (listUntil line (predicate line) .rightBracket)
    (fun d : Option (Separated Predicate) × Nat =>
      Separated.yield? Predicate.yield d.1 ++ [⟨.rightBracket, d.2⟩])
    (fun d => Separated.values? Predicate.value d.1) (fun _ => True) :=
  listUntil_exact (predicate_exact line) (fun _ _ => trivial) (by decide) (fun _ _ => trivial)
    (fun _ _ _ _ he => by cases he)

theorem gives_predicates {ps : List Written.Predicate} :
    Gives (predicates line ts) ps rest ↔
      (∃ n, ts = ⟨.rightBracket, n⟩ :: rest ∧ ps = []) ∨
      ∃ n ts₁, ts = ⟨.pipe, n⟩ :: ts₁ ∧
        Gives (listUntil line (predicate line) .rightBracket ts₁) ps rest := by
  rw [predicates.eq_def]
  split
  case h_1 => simp
  case h_2 n ts₁ =>
    rw [gives_behind]
    constructor
    · exact fun hg => .inr ⟨n, ts₁, rfl, hg⟩
    · rintro (⟨n', he, -⟩ | ⟨n', ts₁', he, hg⟩)
      · cases he
      · cases he
        exact hg
  case h_3 n ts₁ =>
    rw [gives_ok]
    constructor
    · rintro ⟨rfl, rfl⟩
      exact .inl ⟨n, rfl, rfl⟩
    · rintro (⟨n', he, rfl⟩ | ⟨n', ts₁', he, -⟩)
      · cases he
        exact ⟨rfl, rfl⟩
      · cases he
  case h_4 l ts₁ hpipe hbracket =>
    simp only [not_gives_error, false_iff]
    rintro (⟨n', he, -⟩ | ⟨n', ts₁', he, -⟩)
    · cases he
      exact hbracket _ rfl
    · cases he
      exact hpipe _ rfl

/-- The end of a comprehension is read exactly. -/
theorem predicates_exact (line : Nat) :
    Exact (predicates line) Predicates.yield Predicates.value (fun _ => True) where
  sound := by
    intro ts ps rest hg
    rcases gives_predicates.mp hg with ⟨n, rfl, rfl⟩ | ⟨n, ts₁, rfl, hl⟩
    · exact ⟨.missing n, rfl, rfl⟩
    · obtain ⟨⟨items, m⟩, rfl, rfl⟩ := (predicateList_exact line).sound hl
      exact ⟨.listed n items m, rfl, rfl⟩
  complete := by
    intro d rest _
    cases d with
    | missing n => exact gives_predicates.mpr (.inl ⟨n, rfl, rfl⟩)
    | listed n items m =>
      exact gives_predicates.mpr
        (.inr ⟨n, _, rfl, (predicateList_exact line).complete (items, m) trivial⟩)
  unique := by
    intro d d' rest rest' _ _ he
    cases d with
    | missing n =>
      cases d' with
      | missing n' =>
        cases he
        rfl
      | listed n' items' m' => cases he
    | listed n items m =>
      cases d' with
      | missing n' => cases he
      | listed n' items' m' =>
        obtain ⟨hn, hitems⟩ := List.cons_eq_cons.mp he
        cases hn
        have hd : (items, m) = (items', m') :=
          (predicateList_exact line).unique trivial trivial hitems
        cases hd
        rfl

theorem endsBindings_predicates (d : Predicates) (rest : List Lexeme) :
    endsBindings (d.yield ++ rest) = true := by
  cases d <;> rfl

/-- A comprehension is read exactly. -/
theorem comprehension_exact (line : Nat) :
    Exact (comprehension line) Comprehension.yield Comprehension.value (fun _ => True) where
  sound := by
    intro ts c rest hg
    unfold comprehension at hg
    simp only [gives_andThen, gives_optionally, gives_identifier, gives_expect, gives_mapRead] at hg
    obtain ⟨result, _, ⟨n, rfl⟩, -, _, ⟨m, rfl⟩, -, _, ⟨k, rfl⟩, e, _, he, -, _, ⟨p, rfl⟩, bs, _, hb, ps,
      rfl, hp⟩ := hg
    obtain ⟨e, rfl, rfl⟩ := (transform_exact line).sound he
    obtain ⟨b, rfl, rfl⟩ := (bindings_exact line).sound hb
    obtain ⟨q, rfl, rfl⟩ := (predicates_exact line).sound hp
    exact ⟨⟨result, n, m, k, e, p, b, q⟩, rfl, by simp [Comprehension.yield]⟩
  complete := by
    rintro ⟨result, n, m, k, e, p, b, q⟩ rest -
    -- from the end on, since each part is over only where the next one begins
    have hq : Gives (predicates line (q.yield ++ rest)) q.value rest :=
      (predicates_exact line).complete q trivial
    have hb := (bindings_exact line).complete b (endsBindings_predicates q rest)
    have he := fun ts => (transform_exact line).complete e (show lacksTransform (⟨.pipe, p⟩ :: ts) = true from rfl)
    rw [show Comprehension.yield ⟨result, n, m, k, e, p, b, q⟩ ++ rest =
      ⟨.word result, n⟩ :: ⟨.equals, m⟩ :: ⟨.leftBracket, k⟩ :: (e.elim [] Arith.yield ++ ⟨.pipe, p⟩ ::
        (Separated.yield? Binding.yield b ++ (q.yield ++ rest))) by simp [Comprehension.yield]]
    unfold comprehension
    simp only [gives_andThen, gives_optionally, gives_identifier, gives_expect, gives_mapRead]
    exact ⟨result, _, ⟨n, rfl⟩, (), _, ⟨m, rfl⟩, (), _, ⟨k, rfl⟩, _, _, he _, (), _, ⟨p, rfl⟩, _, _,
      hb, _, rfl, hq⟩
  unique := by
    rintro ⟨result, n, m, k, e, p, b, q⟩ ⟨result', n', m', k', e', p', b', q'⟩ rest rest' - - he
    simp only [Comprehension.yield, List.cons_append, List.append_assoc, List.cons.injEq, Lexeme.mk.injEq,
      Token.word.injEq] at he
    obtain ⟨⟨rfl, rfl⟩, ⟨-, rfl⟩, ⟨-, rfl⟩, he⟩ := he
    obtain ⟨rfl, hpipe⟩ := (transform_exact line).cancel rfl rfl he
    cases List.cons_eq_cons.mp hpipe with
    | intro hp hb =>
      cases hp
      obtain ⟨rfl, hq⟩ := (bindings_exact line).cancel (endsBindings_predicates q rest)
        (endsBindings_predicates q' rest') hb
      rw [(predicates_exact line).unique trivial trivial hq]

end Comprehensions

/-! ## Looking ahead -/

/-- Every comprehension is taken for one: only its transform stands before the first `|`. -/
theorem startsComprehension_comprehension (d : Comprehension) (rest : List Lexeme) :
    startsComprehension (d.yield ++ rest) = true := by
  show pipeInside 0 (d.transform.elim [] Arith.yield ++ _ ++ rest) = true
  rw [List.append_assoc, pipeInside_append (isInner_elim isInner_arith d.transform)]
  rfl

/-- No definition is: no `|` stands before its first closing bracket. -/
theorem startsComprehension_clause (d : Clause) (rest : List Lexeme) :
    startsComprehension (d.yield ++ rest) = false := by
  obtain ⟨name, n, m, body⟩ := d
  cases body with
  | listed k items j =>
    show pipeInside 0 (Separated.yield? Literal.yield items ++ _ ++ rest) = false
    rw [List.append_assoc, Separated.yield?,
      pipeInside_append (isInner_elim (isInner_separated isInner_literal) items)]
    rfl
  | between lower k upper => cases lower <;> rfl
  | above lower k => cases lower <;> rfl
  | below k upper => rfl

theorem startsComprehension_definitions (s : Separated Clause) (rest : List Lexeme) :
    startsComprehension (s.yield Clause.yield ++ rest) = false := by
  cases s with
  | last d => exact startsComprehension_clause d rest
  | more d n s =>
    rw [Separated.yield, List.append_assoc]
    exact startsComprehension_clause d _

/-! ## Statements -/

section Statements

variable {line : Nat} {ts rest : List Lexeme}

theorem definitions_exact (line : Nat) : Exact (chain (clause line)) (Separated.yield Clause.yield)
    (Separated.values Clause.value) (fun rest => startsNumber rest = false ∧ startsComma rest = false) :=
  chain_exact (clause_exact line) fun _ _ => rfl

theorem definitions_ne_showWord (s : Separated Clause) (n : Nat) (ts ts' : List Lexeme) :
    s.yield Clause.yield ++ ts ≠ ⟨.showWord, n⟩ :: ts' :=
  s.yield_append_ne (fun _ _ _ _ he => by cases he) n ts ts'

theorem gives_statement {s : Written.Statement} :
    Gives (statement line ts) s rest ↔
      (∃ n, ts = ⟨.showWord, n⟩ :: rest ∧ s = ⟨.showAll, n⟩) ∨
      (∃ c, startsComprehension ts = true ∧ s = ⟨.comprehension c, line⟩ ∧
        Gives (comprehension line ts) c rest) ∨
      ∃ cs, startsComprehension ts = false ∧ s = ⟨.definitions cs, line⟩ ∧
        Gives (chain (clause line) ts) cs rest := by
  rw [statement.eq_def]
  split
  case h_1 n ts₁ =>
    rw [gives_ok]
    constructor
    · rintro ⟨rfl, rfl⟩
      exact .inl ⟨n, rfl, rfl⟩
    · rintro (⟨n', he, rfl⟩ | ⟨c, hc, -⟩ | ⟨cs, -, -, hg⟩)
      · cases he
        exact ⟨rfl, rfl⟩
      · cases hc
      · obtain ⟨d, -, he⟩ := (definitions_exact line).sound hg
        exact absurd he.symm (definitions_ne_showWord d n _ _)
  case h_2 hshow =>
    split_ifs with h
    · rw [gives_mapRead]
      constructor
      · rintro ⟨c, rfl, hg⟩
        exact .inr (.inl ⟨c, h, rfl, hg⟩)
      · rintro (⟨n, he, -⟩ | ⟨c, -, rfl, hg⟩ | ⟨cs, hc, -, -⟩)
        · exact absurd he (hshow _ _)
        · exact ⟨c, rfl, hg⟩
        · rw [h] at hc
          cases hc
    · have h : startsComprehension ts = false := by simpa using h
      rw [gives_mapRead]
      constructor
      · rintro ⟨cs, rfl, hg⟩
        exact .inr (.inr ⟨cs, h, rfl, hg⟩)
      · rintro (⟨n, he, -⟩ | ⟨c, hc, -, -⟩ | ⟨cs, -, rfl, hg⟩)
        · exact absurd he (hshow _ _)
        · rw [h] at hc
          cases hc
        · exact ⟨cs, rfl, hg⟩

/-- A statement is read exactly, if neither a number nor a comma follows. -/
theorem statement_exact (line : Nat) : Exact (statement line) Statement.yield (Statement.value line)
    (fun rest => startsNumber rest = false ∧ startsComma rest = false) where
  sound := by
    intro ts s rest hg
    rcases gives_statement.mp hg with ⟨n, rfl, rfl⟩ | ⟨c, -, rfl, hc⟩ | ⟨cs, -, rfl, hcs⟩
    · exact ⟨.showAll n, rfl, rfl⟩
    · obtain ⟨d, rfl, rfl⟩ := (comprehension_exact line).sound hc
      exact ⟨.comprehension d, rfl, rfl⟩
    · obtain ⟨d, rfl, rfl⟩ := (definitions_exact line).sound hcs
      exact ⟨.definitions d, rfl, rfl⟩
  complete := by
    intro d rest hr
    cases d with
    | showAll n => exact gives_statement.mpr (.inl ⟨n, rfl, rfl⟩)
    | definitions s =>
      exact gives_statement.mpr (.inr (.inr ⟨_, startsComprehension_definitions s rest, rfl,
        (definitions_exact line).complete s hr⟩))
    | comprehension d =>
      exact gives_statement.mpr (.inr (.inl ⟨_, startsComprehension_comprehension d rest, rfl,
        (comprehension_exact line).complete d trivial⟩))
  unique := by
    intro d d' rest rest' hr hr' he
    -- the look ahead tells the two kinds apart that begin alike
    have hne : ∀ (s : Separated Clause) (c : Comprehension) ts ts', s.yield Clause.yield ++ ts ≠ c.yield ++ ts' := by
      intro s c ts ts' he
      have hs := startsComprehension_definitions s ts
      rw [he, startsComprehension_comprehension] at hs
      cases hs
    cases d with
    | showAll n =>
      cases d' with
      | showAll n' =>
        cases he
        rfl
      | definitions s' => exact absurd he.symm (definitions_ne_showWord s' n _ _)
      | comprehension c' => cases he
    | definitions s =>
      cases d' with
      | showAll n' => exact absurd he (definitions_ne_showWord s n' _ _)
      | definitions s' => rw [(definitions_exact line).unique hr hr' he]
      | comprehension c' => exact absurd he (hne s c' _ _)
    | comprehension c =>
      cases d' with
      | showAll n' => cases he
      | definitions s' => exact absurd he.symm (hne s' c _ _)
      | comprehension c' => rw [(comprehension_exact line).unique trivial trivial he]

theorem ofLexemes?_eq_ok {r : Option Written.Statement} :
    Written.Statement.ofLexemes? line ts = .ok r ↔
      (ts = [] ∧ r = none) ∨ ∃ s, r = some s ∧ Gives (statement line ts) s [] := by
  cases ts with
  | nil =>
    constructor
    · intro h
      cases h
      exact .inl ⟨rfl, rfl⟩
    · rintro (⟨-, rfl⟩ | ⟨s, -, hlt, -⟩)
      · rfl
      · exact absurd hlt (Nat.lt_irrefl 0)
  | cons l ts =>
    rw [Written.Statement.ofLexemes?]
    cases hs : statement line (l :: ts) with
    | error e =>
      constructor
      · intro h
        cases h
      · rintro (⟨he, -⟩ | ⟨s, -, hg⟩)
        · cases he
        · exact absurd hg not_gives_error
    | ok t =>
      obtain ⟨s, rest, hlt⟩ := t
      cases rest with
      | nil =>
        constructor
        · intro h
          cases h
          exact .inr ⟨s, rfl, gives_ok.mpr ⟨rfl, rfl⟩⟩
        · rintro (⟨he, -⟩ | ⟨s', rfl, hg⟩)
          · cases he
          · obtain ⟨rfl, -⟩ := gives_ok.mp hg
            rfl
      | cons l' rest =>
        constructor
        · intro h
          cases h
        · rintro (⟨he, -⟩ | ⟨s', -, hg⟩)
          · cases he
          · obtain ⟨-, he⟩ := gives_ok.mp hg
            cases he

theorem gives_statement_nil {s : Written.Statement} :
    Gives (statement line ts) s [] ↔ ∃ d : Statement, d.yield = ts ∧ d.value line = s := by
  constructor
  · intro hg
    obtain ⟨d, rfl, rfl⟩ := (statement_exact line).sound hg
    exact ⟨d, (List.append_nil _).symm, rfl⟩
  · rintro ⟨d, rfl, rfl⟩
    have hg : Gives (statement line (d.yield ++ [])) (d.value line) [] :=
      (statement_exact line).complete d ⟨rfl, rfl⟩
    rwa [List.append_nil] at hg

/-- A text is read as the statement of a derivation whose lexemes are those of the text. -/
theorem parse?_eq_some {input : String} {w : Written.Statement} :
    Written.Statement.parse? input line = .ok (some w) ↔
      ∃ d : Statement, Token.tokenize input line = .ok d.yield ∧ d.value line = w := by
  rw [Written.Statement.parse?]
  cases h : Token.tokenize input line with
  | error e =>
    refine ⟨nofun, ?_⟩
    rintro ⟨d, ⟨⟩, -⟩
  | ok ts =>
    show Written.Statement.ofLexemes? line ts = .ok (some w) ↔ _
    rw [ofLexemes?_eq_ok]
    constructor
    · rintro (⟨-, ⟨⟩⟩ | ⟨s, ⟨⟩, hg⟩)
      obtain ⟨d, rfl, rfl⟩ := gives_statement_nil.mp hg
      exact ⟨d, rfl, rfl⟩
    · rintro ⟨d, ⟨⟩, rfl⟩
      exact .inr ⟨_, rfl, gives_statement_nil.mpr ⟨d, rfl, rfl⟩⟩

/-- **Statements are read exactly.**  Lexemes, if there are any, are read as a statement if and only if all of them
together have a derivation, and the statement is the one of this derivation; the lexemes determine the derivation;
and the look ahead takes just the comprehensions for comprehensions. -/
theorem statements_have_one_derivation (line : Nat) :
    (∀ ts r, Written.Statement.ofLexemes? line ts = .ok r ↔
      (ts = [] ∧ r = none) ∨ ∃ d : Statement, d.yield = ts ∧ r = some (d.value line)) ∧
    Function.Injective Statement.yield ∧
    ∀ d : Statement, startsComprehension d.yield = true ↔ ∃ c, d = .comprehension c := by
  refine ⟨?_, ?_, ?_⟩
  · intro ts r
    rw [ofLexemes?_eq_ok]
    simp only [gives_statement_nil]
    refine or_congr_right ⟨?_, ?_⟩
    · rintro ⟨s, rfl, d, rfl, rfl⟩
      exact ⟨d, rfl, rfl⟩
    · rintro ⟨d, rfl, rfl⟩
      exact ⟨_, rfl, d, rfl, rfl⟩
  · intro d d' he
    have he : d.yield ++ [] = d'.yield ++ [] := by rw [he]
    exact (statement_exact line).unique ⟨rfl, rfl⟩ ⟨rfl, rfl⟩ he
  · intro d
    cases d with
    | showAll n => simp [Statement.yield, startsComprehension]
    | definitions s =>
      have hs := startsComprehension_definitions s []
      rw [List.append_nil] at hs
      simp [Statement.yield, hs]
    | comprehension c =>
      have hc := startsComprehension_comprehension c []
      rw [List.append_nil] at hc
      simp [Statement.yield, hc]

end Statements

end Listwise.Grammar.Derivation

import Mathlib.Logic.Basic
import Mathlib.Tactic.SplitIfs
import Listwise.Grammar.Statement

/-!
# What readers give

`Gives o x rest` says that the result `o` of a reader is the value `x` with `rest` left to read.  Each reader of
`Listwise.Grammar.Basic` has one lemma that says exactly when it gives what, so later proofs unfold none of them.

`Exact r yield value follow` relates a reader to a class of derivations: whatever it gives comes from a
derivation, and it reads the lexemes of every derivation back, if what follows them cannot be taken for a part of
it (`follow`).  Under the same condition the lexemes determine the derivation.

* `mapRead_exact`, `optional_exact`: exactness passes to other views of a result, and to results that may be missing.
* `chain_exact`, `listUntil_exact`: exactness passes from items to sequences of items.
-/

namespace Listwise.Grammar

/-! ## Results -/

section Results

variable {α β : Type} {n m : Nat} {x : α} {y : β} {rest : List Lexeme}

/-- The result of a reader is `x`, and `rest` is left. -/
def Gives (o : Except Error (Taken α n)) (x : α) (rest : List Lexeme) : Prop :=
  ∃ h, o = .ok ⟨x, rest, h⟩

@[simp] theorem gives_ok {t : Taken α n} : Gives (.ok t) x rest ↔ t.value = x ∧ t.rest = rest := by
  obtain ⟨x', rest', h'⟩ := t
  constructor
  · rintro ⟨h, he⟩
    cases he
    exact ⟨rfl, rfl⟩
  · rintro ⟨rfl, rfl⟩
    exact ⟨h', rfl⟩

@[simp] theorem gives_pure {t : Taken α n} :
    Gives (pure t) x rest ↔ t.value = x ∧ t.rest = rest :=
  gives_ok

@[simp] theorem not_gives_error {e : Error} : ¬ Gives (.error e : Except Error (Taken α n)) x rest := by
  rintro ⟨h, he⟩
  cases he

theorem Gives.unique {o : Except Error (Taken α n)} {x' : α} {rest' : List Lexeme}
    (h : Gives o x rest) (h' : Gives o x' rest') : x = x' ∧ rest = rest' := by
  obtain ⟨b, rfl⟩ := h
  obtain ⟨b', he⟩ := h'
  cases he
  exact ⟨rfl, rfl⟩

/-- One reader after the other; only the value and the rest of the first one matter to the second. -/
theorem gives_bind {o : Except Error (Taken α n)} {k : Taken α n → Except Error (Taken β m)}
    {K : α → List Lexeme → Prop} (hk : ∀ x ts h, Gives (k ⟨x, ts, h⟩) y rest ↔ K x ts) :
    Gives (o >>= k) y rest ↔ ∃ x ts, Gives o x ts ∧ K x ts := by
  cases o with
  | error e =>
    constructor
    · rintro ⟨h, he⟩
      cases he
    · rintro ⟨x, ts, hx, -⟩
      exact absurd hx not_gives_error
  | ok t =>
    obtain ⟨x, ts, h⟩ := t
    constructor
    · intro hy
      exact ⟨x, ts, ⟨h, rfl⟩, (hk x ts h).mp hy⟩
    · rintro ⟨x', ts', ⟨h', he⟩, hK⟩
      cases he
      exact (hk x ts h).mpr hK

/-- Another view `f` of a result, which leaves the rest alone. -/
theorem gives_view {o : Except Error (Taken α n)} {f : Taken α n → Taken β m} (g : α → β)
    (hf : ∀ t, (f t).value = g t.value ∧ (f t).rest = t.rest) :
    Gives (o.map f) y rest ↔ ∃ x, g x = y ∧ Gives o x rest := by
  cases o with
  | error e => simp [Except.map]
  | ok t =>
    simp only [Except.map, gives_ok, hf]
    constructor
    · rintro ⟨hv, hr⟩
      exact ⟨_, hv, rfl, hr⟩
    · rintro ⟨x, hv, rfl, hr⟩
      exact ⟨hv, hr⟩

/-- The same, for a result that is returned from a `do` block. -/
theorem gives_return {o : Except Error (Taken α n)} {f : Taken α n → Taken β m} (g : α → β)
    (hf : ∀ t, (f t).value = g t.value ∧ (f t).rest = t.rest) :
    Gives (o >>= fun t => pure (f t)) y rest ↔ ∃ x, g x = y ∧ Gives o x rest := by
  rw [← gives_view g hf]
  cases o <;> rfl

theorem gives_behind {o : Except Error (Taken α n)} :
    Gives (o.map Taken.behind) x rest ↔ Gives o x rest := by
  cases o <;> simp [Except.map, Taken.behind, Taken.widen]

theorem gives_widen {o : Except Error (Taken α n)} {h : n ≤ m} :
    Gives (o >>= fun t => pure (t.widen h)) x rest ↔ Gives o x rest := by
  cases o <;> simp [bind, Except.bind, pure, Except.pure, Taken.widen]

end Results

/-! ## Combinators and single tokens -/

section Combinators

variable {α β : Type} {x : α} {y : β} {ts rest : List Lexeme} {line : Nat}

theorem gives_andThen {r : Reader α} {k : α → Reader β} :
    Gives (andThen r k ts) y rest ↔ ∃ x ts₁, Gives (r ts) x ts₁ ∧ Gives (k x ts₁) y rest := by
  exact gives_bind fun x ts₁ h => gives_widen

theorem gives_optionally {r : OptionalReader α} {k : α → Reader β} :
    Gives (optionally r k ts) y rest ↔ ∃ x ts₁, Gives (r ts) x ts₁ ∧ Gives (k x ts₁) y rest := by
  exact gives_bind fun x ts₁ h => gives_widen

theorem gives_andMaybe {r : Reader α} {k : α → OptionalReader β} :
    Gives (andMaybe r k ts) y rest ↔ ∃ x ts₁, Gives (r ts) x ts₁ ∧ Gives (k x ts₁) y rest := by
  exact gives_bind fun x ts₁ h => gives_widen

theorem gives_mapRead {f : α → β} {r : Reader α} :
    Gives (mapRead f r ts) y rest ↔ ∃ x, f x = y ∧ Gives (r ts) x rest :=
  gives_view f (fun _ => ⟨rfl, rfl⟩)

theorem gives_relax {r : Reader α} : Gives (relax r ts) x rest ↔ Gives (r ts) x rest :=
  gives_behind

theorem gives_expect {t : Token} {u : Unit} :
    Gives (expect line t ts) u rest ↔ ∃ n, ts = ⟨t, n⟩ :: rest := by
  cases ts with
  | nil => simp [expect]
  | cons l ts =>
    obtain ⟨t', n'⟩ := l
    by_cases h : t' = t
    · simp [expect, h, Taken.one]
    · simp [expect, h]

theorem gives_identifier {name : String} :
    Gives (identifier line ts) name rest ↔ ∃ n, ts = ⟨.word name, n⟩ :: rest := by
  cases ts with
  | nil => simp [identifier]
  | cons l ts =>
    obtain ⟨t, n⟩ := l
    cases t <;> simp [identifier, Taken.one]

theorem gives_unsignedNumber {text : String} :
    Gives (unsignedNumber line ts) text rest ↔ ∃ n, ts = ⟨.number text, n⟩ :: rest := by
  cases ts with
  | nil => simp [unsignedNumber]
  | cons l ts =>
    obtain ⟨t, n⟩ := l
    cases t <;> simp [unsignedNumber, Taken.one]

theorem gives_number {text : String} :
    Gives (number line ts) text rest ↔
      (∃ n, ts = ⟨.number text, n⟩ :: rest) ∨
      ∃ digits m n, text = "-" ++ digits ∧ ts = ⟨.minus, m⟩ :: ⟨.number digits, n⟩ :: rest := by
  unfold number
  split
  case h_1 m ts =>
    rw [gives_behind, gives_mapRead]
    simp only [gives_unsignedNumber]
    constructor
    · rintro ⟨digits, rfl, n, rfl⟩
      exact .inr ⟨digits, m, n, rfl, rfl⟩
    · rintro (⟨n, he⟩ | ⟨digits, m', n, rfl, he⟩)
      · cases he
      · cases he
        exact ⟨digits, rfl, n, rfl⟩
  case h_2 ts h =>
    rw [gives_unsignedNumber]
    constructor
    · exact .inl
    · rintro (he | ⟨digits, m', n, rfl, rfl⟩)
      · exact he
      · exact absurd rfl (h _ _)

end Combinators

/-! ## Sequences -/

section Sequences

variable {α : Type} {item : Reader α} {line : Nat} {ts rest : List Lexeme} {xs : List α}

/-- Whether a comma comes next. -/
def startsComma : List Lexeme → Bool
  | ⟨.comma, _⟩ :: _ => true
  | _ => false

theorem gives_chain :
    Gives (chain item ts) xs rest ↔
      ∃ x ts₁, Gives (item ts) x ts₁ ∧
        ((startsComma ts₁ = false ∧ xs = [x] ∧ rest = ts₁) ∨
          ∃ n ts₂ ys, ts₁ = ⟨.comma, n⟩ :: ts₂ ∧ xs = x :: ys ∧ Gives (chain item ts₂) ys rest) := by
  rw [chain]
  refine gives_bind fun x ts₁ h => ?_
  dsimp only
  split
  case h_1 n ts₂ h' =>
    rw [gives_return (x :: ·) (by intro; exact ⟨rfl, rfl⟩)]
    constructor
    · rintro ⟨ys, rfl, hys⟩
      exact .inr ⟨n, ts₂, ys, rfl, rfl, hys⟩
    · rintro (⟨hc, -⟩ | ⟨n', ts₂', ys, he, rfl, hys⟩)
      · cases hc
      · cases he
        exact ⟨ys, rfl, hys⟩
  case h_2 hne =>
    -- the bound goes along in the match, and there is only one proof of it
    have hne : ∀ n ts₂, ts₁ ≠ ⟨.comma, n⟩ :: ts₂ :=
      fun n ts₂ he => hne n ts₂ (he ▸ h) he (proof_irrel_heq _ _)
    have hc : startsComma ts₁ = false := by
      unfold startsComma
      split
      · exact absurd rfl (hne _ _)
      · rfl
    rw [gives_pure]
    constructor
    · rintro ⟨rfl, rfl⟩
      exact .inl ⟨hc, rfl, rfl⟩
    · rintro (⟨-, rfl, rfl⟩ | ⟨n', ts₂', ys, he, -, -⟩)
      · exact ⟨rfl, rfl⟩
      · exact absurd he (hne _ _)

theorem gives_itemsUntil {closing : Token} (hclosing : closing ≠ .comma) :
    Gives (itemsUntil line item closing ts) xs rest ↔
      ∃ x ts₁, Gives (item ts) x ts₁ ∧
        ((∃ n, ts₁ = ⟨closing, n⟩ :: rest ∧ xs = [x]) ∨
          ∃ n ts₂ ys, ts₁ = ⟨.comma, n⟩ :: ts₂ ∧ xs = x :: ys ∧
            Gives (itemsUntil line item closing ts₂) ys rest) := by
  rw [itemsUntil]
  refine gives_bind fun x ts₁ h => ?_
  dsimp only
  split
  case h_1 => simp
  case h_2 l ts₂ h' =>
    obtain ⟨t, n⟩ := l
    dsimp only
    split_ifs with hcomma hclose
    · subst hcomma
      rw [gives_return (x :: ·) (by intro; exact ⟨rfl, rfl⟩)]
      constructor
      · rintro ⟨ys, rfl, hys⟩
        exact .inr ⟨n, ts₂, ys, rfl, rfl, hys⟩
      · rintro (⟨n', he, -⟩ | ⟨n', ts₂', ys, he, rfl, hys⟩)
        · cases he
          exact absurd rfl hclosing
        · cases he
          exact ⟨ys, rfl, hys⟩
    · subst hclose
      rw [gives_pure]
      constructor
      · rintro ⟨rfl, rfl⟩
        exact .inl ⟨n, rfl, rfl⟩
      · rintro (⟨n', he, rfl⟩ | ⟨n', ts₂', ys, he, -, -⟩)
        · cases he
          exact ⟨rfl, rfl⟩
        · cases he
          exact absurd rfl hcomma
    · simp only [not_gives_error, false_iff]
      rintro (⟨n', he, -⟩ | ⟨n', ts₂', ys, he, -, -⟩)
      · cases he
        exact hclose rfl
      · cases he
        exact hcomma rfl

theorem gives_listUntil {closing : Token} :
    Gives (listUntil line item closing ts) xs rest ↔
      (∃ n, ts = ⟨closing, n⟩ :: rest ∧ xs = []) ∨
      ((∀ n ts₁, ts ≠ ⟨closing, n⟩ :: ts₁) ∧ Gives (itemsUntil line item closing ts) xs rest) := by
  cases ts with
  | nil => simp [listUntil]
  | cons l ts =>
    obtain ⟨t, n⟩ := l
    rw [listUntil]
    split_ifs with h
    · have h : t = closing := h
      subst h
      simp [Taken.one, and_comm, eq_comm]
    · have h : t ≠ closing := h
      simp [h]

end Sequences

/-! ## Exactness -/

section Exactness

variable {α δ : Type}

/-- The reader `r` reads derivations of type `δ`, of which `yield` gives the lexemes and `value` what they mean:
all of them and nothing else, and their lexemes determine them.  `follow` is what may come behind. -/
structure Exact {b : List Lexeme → Nat} (r : (ts : List Lexeme) → Except Error (Taken α (b ts)))
    (yield : δ → List Lexeme) (value : δ → α) (follow : List Lexeme → Prop) : Prop where
  sound : ∀ {ts x rest}, Gives (r ts) x rest → ∃ d, value d = x ∧ ts = yield d ++ rest
  complete : ∀ d {rest}, follow rest → Gives (r (yield d ++ rest)) (value d) rest
  unique : ∀ {d d' rest rest'}, follow rest → follow rest' →
    yield d ++ rest = yield d' ++ rest' → d = d'

theorem Exact.cancel {b : List Lexeme → Nat} {r : (ts : List Lexeme) → Except Error (Taken α (b ts))}
    {yield : δ → List Lexeme} {value : δ → α} {follow : List Lexeme → Prop}
    (h : Exact r yield value follow) {d d' : δ} {rest rest' : List Lexeme} (hr : follow rest)
    (hr' : follow rest') (he : yield d ++ rest = yield d' ++ rest') : d = d' ∧ rest = rest' := by
  obtain rfl := h.unique hr hr' he
  exact ⟨rfl, List.append_cancel_left he⟩

theorem mapRead_exact {β : Type} {r : Reader α} {yield : δ → List Lexeme} {value : δ → α}
    {follow : List Lexeme → Prop} (h : Exact r yield value follow) (f : α → β) :
    Exact (mapRead f r) yield (fun d => f (value d)) follow where
  sound := by
    intro ts x rest hg
    obtain ⟨x, rfl, hx⟩ := gives_mapRead.mp hg
    obtain ⟨d, rfl, rfl⟩ := h.sound hx
    exact ⟨d, rfl, rfl⟩
  complete d _ hr := gives_mapRead.mpr ⟨_, rfl, h.complete d hr⟩
  unique := h.unique

/-- A reader that first looks whether there is anything to read reads a derivation that may be missing. -/
theorem optional_exact {r : Reader α} {yield : δ → List Lexeme} {value : δ → α} {follow : List Lexeme → Prop}
    (h : Exact r yield value follow) (stops : List Lexeme → Bool) (x : α)
    (hstops : ∀ {rest}, stops rest = true → follow rest)
    (hgoes : ∀ d rest, stops (yield d ++ rest) = false) :
    Exact (b := fun ts => ts.length + 1) (fun ts => if stops ts then .ok (.keep x ts) else relax r ts)
      (fun d : Option δ => d.elim [] yield) (fun d => d.elim x value) (fun rest => stops rest = true) where
  sound := by
    intro ts x' rest hg
    split_ifs at hg with hs
    · obtain ⟨rfl, rfl⟩ := gives_ok.mp hg
      exact ⟨none, rfl, rfl⟩
    · obtain ⟨d, rfl, rfl⟩ := h.sound (gives_relax.mp hg)
      exact ⟨some d, rfl, rfl⟩
  complete := by
    intro d rest hr
    cases d with
    | none =>
      show Gives (if stops rest then .ok (.keep x rest) else relax r rest) x rest
      rw [if_pos hr, gives_ok]
      exact ⟨rfl, rfl⟩
    | some d =>
      have hd : ¬ stops (yield d ++ rest) = true := by
        rw [hgoes]
        exact Bool.false_ne_true
      show Gives (if stops (yield d ++ rest) then .ok (.keep x (yield d ++ rest))
        else relax r (yield d ++ rest)) (value d) rest
      rw [if_neg hd, gives_relax]
      exact h.complete d (hstops hr)
  unique := by
    intro d d' rest rest' hr hr' he
    cases d with
    | none =>
      cases d' with
      | none => rfl
      | some d' =>
        rw [show rest = yield d' ++ rest' from he, hgoes] at hr
        cases hr
    | some d =>
      cases d' with
      | none =>
        rw [show rest' = yield d ++ rest from he.symm, hgoes] at hr'
        cases hr'
      | some d' => rw [h.unique (hstops hr) (hstops hr') he]

/-- Derivations with commas between them, at least one; a comma is known by its line. -/
inductive Separated (δ : Type) where
  | last (d : δ)
  | more (d : δ) (comma : Nat) (s : Separated δ)
  deriving DecidableEq, Repr

namespace Separated

/-- The lexemes of a sequence. -/
def yield (y : δ → List Lexeme) : Separated δ → List Lexeme
  | .last d => y d
  | .more d n s => y d ++ ⟨.comma, n⟩ :: s.yield y

/-- What the members of a sequence mean. -/
def values (v : δ → α) : Separated δ → List α
  | .last d => [v d]
  | .more d _ s => v d :: s.values v

/-- The lexemes of a sequence that may be missing. -/
def yield? (y : δ → List Lexeme) (s : Option (Separated δ)) : List Lexeme := s.elim [] (yield y)

/-- What the members of a sequence mean that may be missing. -/
def values? (v : δ → α) (s : Option (Separated δ)) : List α := s.elim [] (values v)

end Separated

variable {item : Reader α} {line : Nat} {y : δ → List Lexeme} {v : δ → α}
  {follow : List Lexeme → Prop}

theorem Separated.yield_append_ne {closing : Token}
    (hhead : ∀ d n ts ts', y d ++ ts ≠ ⟨closing, n⟩ :: ts') (s : Separated δ) (n : Nat) (ts ts' : List Lexeme) :
    s.yield y ++ ts ≠ ⟨closing, n⟩ :: ts' := by
  cases s with
  | last d => exact hhead d n ts ts'
  | more d m s =>
    rw [Separated.yield, List.append_assoc]
    exact hhead d n _ ts'

variable (h : Exact item y v follow)
include h

theorem chain_sound {ts rest : List Lexeme} {xs : List α} (hg : Gives (chain item ts) xs rest) :
    ∃ s : Separated δ, s.values v = xs ∧ ts = s.yield y ++ rest := by
  -- on the length of the lexemes: what stands behind a comma is shorter
  induction hn : ts.length using Nat.strongRecOn generalizing ts xs with
  | _ n ih =>
    subst hn
    obtain ⟨x, ts₁, hx, hcases⟩ := gives_chain.mp hg
    obtain ⟨d, rfl, hts⟩ := h.sound hx
    rcases hcases with ⟨-, rfl, rfl⟩ | ⟨m, ts₂, ys, rfl, rfl, hys⟩
    · exact ⟨.last d, rfl, hts⟩
    · have hlt : ts₂.length < ts.length := by
        rw [hts, List.length_append, List.length_cons]
        omega
      obtain ⟨s, rfl, rfl⟩ := ih _ hlt hys rfl
      exact ⟨.more d m s, rfl, by rw [hts, Separated.yield, List.append_assoc, List.cons_append]⟩

theorem itemsUntil_sound {closing : Token} (hne : closing ≠ .comma) {ts rest : List Lexeme} {xs : List α}
    (hg : Gives (itemsUntil line item closing ts) xs rest) :
    ∃ (s : Separated δ) (n : Nat), s.values v = xs ∧ ts = s.yield y ++ ⟨closing, n⟩ :: rest := by
  induction hn : ts.length using Nat.strongRecOn generalizing ts xs with
  | _ n ih =>
    subst hn
    obtain ⟨x, ts₁, hx, hcases⟩ := (gives_itemsUntil hne).mp hg
    obtain ⟨d, rfl, hts⟩ := h.sound hx
    rcases hcases with ⟨n, rfl, rfl⟩ | ⟨m, ts₂, ys, rfl, rfl, hys⟩
    · exact ⟨.last d, n, rfl, hts⟩
    · have hlt : ts₂.length < ts.length := by
        rw [hts, List.length_append, List.length_cons]
        omega
      obtain ⟨s, n, rfl, rfl⟩ := ih _ hlt hys rfl
      exact ⟨.more d m s, n, rfl, by rw [hts, Separated.yield, List.append_assoc, List.cons_append]⟩

variable (hcomma : ∀ n ts, follow (⟨.comma, n⟩ :: ts))
include hcomma

theorem chain_complete (s : Separated δ) {rest : List Lexeme} (hr : follow rest)
    (hc : startsComma rest = false) : Gives (chain item (s.yield y ++ rest)) (s.values v) rest := by
  induction s with
  | last d => exact gives_chain.mpr ⟨v d, rest, h.complete d hr, .inl ⟨hc, rfl, rfl⟩⟩
  | more d n s ih =>
    rw [Separated.yield, List.append_assoc, List.cons_append]
    exact gives_chain.mpr ⟨v d, _, h.complete d (hcomma n _), .inr ⟨n, _, _, rfl, rfl, ih⟩⟩

theorem separated_unique {s s' : Separated δ} {rest rest' : List Lexeme} (hr : follow rest)
    (hr' : follow rest') (hc : startsComma rest = false) (hc' : startsComma rest' = false)
    (he : s.yield y ++ rest = s'.yield y ++ rest') : s = s' := by
  induction s generalizing s' with
  | last d =>
    cases s' with
    | last d' => rw [h.unique hr hr' he]
    | more d' n' s' =>
      rw [Separated.yield, Separated.yield, List.append_assoc, List.cons_append] at he
      obtain ⟨-, rfl⟩ := h.cancel hr (hcomma _ _) he
      cases hc
  | more d n s ih =>
    cases s' with
    | last d' =>
      rw [Separated.yield, Separated.yield, List.append_assoc, List.cons_append] at he
      obtain ⟨-, rfl⟩ := h.cancel (hcomma _ _) hr' he
      cases hc'
    | more d' n' s' =>
      simp only [Separated.yield, List.append_assoc, List.cons_append] at he
      obtain ⟨rfl, hrest⟩ := h.cancel (hcomma _ _) (hcomma _ _) he
      cases List.cons_eq_cons.mp hrest with
      | intro hn hs =>
        cases hn
        rw [ih hs]

/-- Items with commas between them are read exactly, if no comma follows. -/
theorem chain_exact : Exact (chain item) (Separated.yield y) (Separated.values v)
    (fun rest => follow rest ∧ startsComma rest = false) where
  sound := chain_sound h
  complete s _ hr := chain_complete h hcomma s hr.1 hr.2
  unique hr hr' := separated_unique h hcomma hr.1 hr'.1 hr.2 hr'.2

theorem itemsUntil_complete {closing : Token} (hne : closing ≠ .comma)
    (hclosing : ∀ n ts, follow (⟨closing, n⟩ :: ts)) (s : Separated δ) (n : Nat) (rest : List Lexeme) :
    Gives (itemsUntil line item closing (s.yield y ++ ⟨closing, n⟩ :: rest)) (s.values v) rest := by
  induction s with
  | last d =>
    exact (gives_itemsUntil hne).mpr ⟨v d, _, h.complete d (hclosing n _), .inl ⟨n, rfl, rfl⟩⟩
  | more d m s ih =>
    rw [Separated.yield, List.append_assoc, List.cons_append]
    exact (gives_itemsUntil hne).mpr
      ⟨v d, _, h.complete d (hcomma m _), .inr ⟨m, _, _, rfl, rfl, ih⟩⟩

/-- Items with commas between them, possibly none, are read exactly up to the closing token, if no item begins
with it. -/
theorem listUntil_exact {closing : Token} (hne : closing ≠ .comma)
    (hclosing : ∀ n ts, follow (⟨closing, n⟩ :: ts))
    (hhead : ∀ d n ts ts', y d ++ ts ≠ ⟨closing, n⟩ :: ts') : Exact (listUntil line item closing)
    (fun d : Option (Separated δ) × Nat => Separated.yield? y d.1 ++ [⟨closing, d.2⟩])
    (fun d => Separated.values? v d.1) (fun _ => True) where
  sound := by
    intro ts xs rest hg
    rcases gives_listUntil.mp hg with ⟨n, rfl, rfl⟩ | ⟨-, hg⟩
    · exact ⟨(none, n), rfl, rfl⟩
    · obtain ⟨s, n, rfl, rfl⟩ := itemsUntil_sound h hne hg
      exact ⟨(some s, n), rfl, by simp [Separated.yield?]⟩
  complete := by
    rintro ⟨s, n⟩ rest -
    rw [List.append_assoc, List.singleton_append]
    cases s with
    | none => exact gives_listUntil.mpr (.inl ⟨n, rfl, rfl⟩)
    | some s =>
      exact gives_listUntil.mpr (.inr ⟨fun m ts₁ => s.yield_append_ne hhead m _ ts₁,
        itemsUntil_complete h hcomma hne hclosing s n rest⟩)
  unique := by
    rintro ⟨s, n⟩ ⟨s', n'⟩ rest rest' - - he
    simp only [List.append_assoc, List.singleton_append] at he
    have hc : ∀ m ts, startsComma (⟨closing, m⟩ :: ts) = false := by
      intro m ts
      unfold startsComma
      split
      · next heq =>
        cases heq
        exact absurd rfl hne
      · rfl
    cases s with
    | none =>
      cases s' with
      | none =>
        cases he
        rfl
      | some s' => exact absurd he.symm (s'.yield_append_ne hhead n _ _)
    | some s =>
      cases s' with
      | none => exact absurd he (s.yield_append_ne hhead n' _ _)
      | some s' =>
        obtain rfl := separated_unique h hcomma (hclosing _ _) (hclosing _ _) (hc _ _) (hc _ _) he
        cases List.append_cancel_left he
        rfl

end Exactness

end Listwise.Grammar

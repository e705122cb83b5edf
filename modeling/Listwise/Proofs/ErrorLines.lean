import Listwise.Session
import Listwise.Proofs.NestedLoops
import Listwise.Proofs.Renumbering
import Mathlib.Tactic.ByContra
import Mathlib.Tactic.SplitIfs

/-!
# Lines of errors

Whatever goes wrong in an input is reported on one of its lines.  The lexer counts the lines; from there on a line
number is copied and nothing else, so a renumbering that leaves the lines of the lexemes as they are leaves the line
of the error as it is.

* `ofWritten_renumbered`, `run_renumbered`, `enact_renumbered`: statements, comprehensions and lexemes on other lines.
* `linesIn_scan`: a text of `n` newlines has its lexemes, or its error, on `n + 1` lines.
* `line_of_execute_error`: so has an input.
-/

namespace Listwise

/-! ## Statements -/

section Definitions

variable (f : Nat → Nat)

def Predicate.renumber (p : Predicate) : Predicate := { p with line := f p.line }

def Comprehension.renumber (c : Comprehension) : Comprehension :=
  { c with
    transform := c.transform.renumber f
    predicates := c.predicates.map (Predicate.renumber f)
    line := f c.line }

def Statement.renumber : Statement → Statement
  | .definitions lists => .definitions lists
  | .showAll => .showAll
  | .comprehension c => .comprehension (c.renumber f)

end Definitions

section Reading

variable (f : Nat → Nat) (limits : RangeLimits) (line : Nat)

theorem readDecimal_renumbered (text : String) :
    Renumbered f (fun d d' => d' = d) (readDecimal text line) (readDecimal text (f line)) := by
  unfold readDecimal
  split
  · exact .ok rfl
  · exact .error rfl

theorem readBound_renumbered (text : String) :
    Renumbered f (fun d d' => d' = d) (limits.readBound line text) (limits.readBound (f line) text) := by
  refine (readDecimal_renumbered f line text).bind_eq fun d => ?_
  split
  · exact .ok rfl
  · exact .error rfl

theorem rangeValues_renumbered (lower upper : Decimal) :
    Renumbered f (fun vs vs' => vs' = vs) (rangeValues line lower upper) (rangeValues (f line) lower upper) := by
  unfold rangeValues
  split
  · exact .ok rfl
  · exact .error rfl

theorem literal_renumbered (l : Written.Literal) :
    Renumbered f (fun v v' => v' = v) (l.value line) (l.value (f line)) := by
  cases l with
  | text t => exact .ok rfl
  | number t =>
    exact (readDecimal_renumbered f line t).bind_eq fun d => .ok rfl

theorem values_renumbered (es : Written.Elements) :
    Renumbered f (fun vs vs' => vs' = vs) (es.values limits line) (es.values limits (f line)) := by
  cases es with
  | listed items => exact Related.mapM_self fun l _ => literal_renumbered f line l
  | between lower upper =>
    refine (readBound_renumbered f limits line lower).bind_eq fun lo => ?_
    refine (readBound_renumbered f limits line upper).bind_eq fun hi => ?_
    exact rangeValues_renumbered f line lo hi
  | above lower =>
    refine (readBound_renumbered f limits line lower).bind_eq fun lo => ?_
    exact rangeValues_renumbered f line lo limits.upper
  | below upper =>
    refine (readBound_renumbered f limits line upper).bind_eq fun hi => ?_
    exact rangeValues_renumbered f line limits.lower hi

theorem clause_renumbered (c : Written.Clause) :
    Renumbered f (fun l l' => l' = l) (c.toList limits line) (c.toList limits (f line)) := by
  exact (values_renumbered f limits line c.elements).bind_eq fun vs => .ok rfl

theorem binding_renumbered (b : Written.Binding) :
    Renumbered f (fun l l' => l' = l) (b.toList limits line) (b.toList limits (f line)) := by
  unfold Written.Binding.toList
  split
  · exact .ok rfl
  · next es _ =>
    exact (values_renumbered f limits line es).bind_eq fun vs => .ok rfl

theorem predicate_renumbered (p : Written.Predicate) :
    Renumbered f (fun q q' => q' = q.renumber f) (p.read line) (p.read (f line)) := by
  exact (readDecimal_renumbered f line p.threshold).bind_eq fun d => .ok rfl

theorem mapLiterals_renumbered (e : Expr String) :
    Renumbered f (fun x x' => x' = x.renumber f) (e.mapLiterals readDecimal)
      ((e.renumber f).mapLiterals readDecimal) := by
  induction e with
  | literal v n =>
    exact (readDecimal_renumbered f n v).bind_eq fun d => .ok rfl
  | var x n => exact .ok rfl
  | binary op l r n ihl ihr =>
    refine ihl.bind_eq fun x => ?_
    exact ihr.bind_eq fun y => .ok rfl
  | negate e n ih =>
    exact ih.bind_eq fun x => .ok rfl
  | group e n ih =>
    exact ih.bind_eq fun x => .ok rfl

theorem read_renumbered (c : Written.Comprehension) :
    Renumbered f (fun d d' => d' = d.renumber f) (c.read limits line) ((c.renumber f).read limits (f line)) := by
  obtain ⟨result, transform, bindings, predicates⟩ := c
  cases transform with
  | none => exact .error rfl
  | some e =>
    refine (Related.mapM_self fun b _ => binding_renumbered f limits line b).bind_eq fun bs => ?_
    refine (Related.mapM_map fun p _ => predicate_renumbered f line p).bind_eq fun ps => ?_
    exact (mapLiterals_renumbered f e).bind_eq fun x => .ok rfl

theorem ofWritten_renumbered (w : Written.Statement) :
    Renumbered f (fun st st' => st' = st.renumber f) (Statement.ofWritten limits w)
      (Statement.ofWritten limits (w.renumber f)) := by
  obtain ⟨form, line⟩ := w
  cases form with
  | showAll => exact .ok rfl
  | definitions cs =>
    exact (Related.mapM_self fun c _ => clause_renumbered f limits line c).bind_eq fun ls => .ok rfl
  | comprehension c =>
    exact (read_renumbered f limits line c).bind_eq fun d => .ok rfl

end Reading

/-! ## Comprehensions -/

section Evaluation

variable (f : Nat → Nat)

@[simp] theorem Expr.render_renumber (e : Expr Decimal) : (e.renumber f).render = e.render := by
  induction e with
  | literal v n => rfl
  | var x n => rfl
  | binary op l r n ihl ihr => simp only [renumber, render, ihl, ihr]
  | negate e n ih => simp only [renumber, render, ih]
  | group e n ih => simp only [renumber, render, ih]

theorem eval_renumbered (σ : Assignment) (e : Expr Decimal) :
    Renumbered f (fun d d' => d' = d) (e.eval σ) ((e.renumber f).eval σ) := by
  induction e with
  | literal v n => exact .ok rfl
  | var x n => exact .ok rfl
  | group e n ih => exact ih
  | negate e n ih =>
    exact ih.bind_eq fun d => .ok rfl
  | binary op l r n ihl ihr =>
    refine ihl.bind_eq fun a => ?_
    refine ihr.bind_eq fun b => ?_
    -- the error quotes the operation, in which no line shows
    have hquote : (Expr.binary op (l.renumber f) (r.renumber f) (f n)).render = (Expr.binary op l r n).render :=
      Expr.render_renumber f (.binary op l r n)
    rw [hquote]
    split
    · exact .ok rfl
    · exact .error rfl

theorem nestedLoops_renumbered (c : Comprehension) (loops : List (String × List Decimal)) (σ : Assignment) :
    Renumbered f (fun ds ds' => ds' = ds) (c.nestedLoops loops σ) ((c.renumber f).nestedLoops loops σ) := by
  induction loops generalizing σ with
  | nil =>
    have hall : (c.renumber f).predicates.all (·.holdsIn σ) = c.predicates.all (·.holdsIn σ) := List.all_map
    rw [Comprehension.nestedLoops, Comprehension.nestedLoops, hall]
    split
    · exact (eval_renumbered f σ c.transform).bind_eq fun d => .ok rfl
    · exact .ok rfl
  | cons loop loops ih =>
    obtain ⟨x, values⟩ := loop
    exact (Related.mapM_self fun v _ => ih ((x, v) :: σ)).bind_eq fun rows => .ok rfl

theorem run_renumbered (c : Comprehension) (store : Store) :
    Renumbered f (fun l l' => l' = l) (c.run store) ((c.renumber f).run store) := by
  rw [Comprehension.run_eq_nested, Comprehension.run_eq_nested, Comprehension.nested, Comprehension.nested]
  have hfind : (c.renumber f).predicates.find? (·.relation.isNone) =
      (c.predicates.find? (·.relation.isNone)).map (Predicate.renumber f) := List.find?_map
  rw [hfind]
  cases c.predicates.find? (·.relation.isNone) with
  | some p => exact .error rfl
  | none =>
    have hbindings : (c.renumber f).bindings = c.bindings := rfl
    rw [hbindings]
    dsimp only
    split
    · exact .ok rfl
    · cases store.firstFault? [] c.bindings with
      | some cause => exact .error rfl
      | none =>
        exact (nestedLoops_renumbered f c (c.loops store) []).bind_eq fun ds => .ok rfl

end Evaluation

/-! ## Inputs -/

namespace Session

/-- Carries out the statement that lexemes are. -/
def enact (s : Session) (line : Nat) (ts : List Lexeme) : Except Error (Session × List String) := do
  match ← Written.Statement.ofLexemes? line ts with
  | none => return (s, [])
  | some w => s.perform (← Statement.ofWritten s.limits w)

theorem execute_eq_enact (s : Session) (input : String) (line : Nat) :
    s.execute input line = Token.tokenize input line >>= s.enact line := by
  rw [execute, Written.Statement.parse?]
  cases Token.tokenize input line <;> rfl

theorem perform_renumbered (f : Nat → Nat) (s : Session) (st : Statement) :
    Renumbered f (fun p p' => p' = p) (s.perform st) (s.perform (st.renumber f)) := by
  cases st with
  | definitions lists => exact .ok rfl
  | showAll => exact .ok rfl
  | comprehension c =>
    exact (run_renumbered f c s.store).bind_eq fun l => .ok rfl

theorem enact_renumbered (f : Nat → Nat) (s : Session) (line : Nat) (ts : List Lexeme) :
    Renumbered f (fun p p' => p' = p) (s.enact line ts) (s.enact (f line) (ts.map (Lexeme.renumber f))) := by
  refine (Written.Statement.ofLexemes?_renumbered f line ts).bind_eq fun w => ?_
  cases w with
  | none => exact .ok rfl
  | some w =>
    refine (ofWritten_renumbered f s.limits w).bind_eq fun st => ?_
    exact perform_renumbered f s st

end Session

/-! ## Lexemes -/

section Lexemes

open Token

theorem cutFraction_suffix (cs : List Char) : (cutFraction cs).2 <:+ cs := by
  fun_cases cutFraction cs with
  | case1 c cs _ =>
    have hcs : cs <:+ '.' :: c :: cs := (List.suffix_cons c cs).trans (List.suffix_cons '.' _)
    exact (List.dropWhile_suffix _).trans hcs
  | _ => exact List.suffix_rfl

theorem cutSign_suffix (cs : List Char) : (cutSign cs).2 <:+ cs := by
  fun_cases cutSign cs with
  | case1 cs => exact List.suffix_cons _ cs
  | case2 cs => exact List.suffix_cons _ cs
  | case3 => exact List.suffix_rfl

theorem cutExponent_suffix (cs : List Char) : (cutExponent cs).2 <:+ cs := by
  fun_cases cutExponent cs with
  | case2 c cs _ d ds hs _ =>
    have hds : d :: ds <:+ cs := hs ▸ cutSign_suffix cs
    exact (List.dropWhile_suffix _).trans ((List.suffix_cons d ds).trans (hds.trans (List.suffix_cons c cs)))
  | _ => exact List.suffix_rfl

theorem cutNumber_suffix (c : Char) (cs : List Char) : (cutNumber c cs).2 <:+ cs :=
  (cutExponent_suffix _).trans ((cutFraction_suffix _).trans (List.dropWhile_suffix _))

theorem cutQuoted_suffix (cs : List Char) : (Piece.cutQuoted cs).2 <:+ cs := by
  have hdrop : cs.dropWhile (!Piece.endsQuoted ·) <:+ cs := List.dropWhile_suffix _
  fun_cases Piece.cutQuoted cs with
  | case1 rest h => exact (List.suffix_cons _ rest).trans (h ▸ hdrop)
  | case2 => exact hdrop

theorem cutMark_suffix (c : Char) (cs : List Char) : (Piece.cutMark c cs).2 <:+ cs := by
  fun_cases Piece.cutMark c cs with
  | case1 cs => exact (List.dropWhile_suffix _).trans (List.suffix_cons _ cs)
  | _ => simp

/-- What is left behind a piece is the end of the text. -/
theorem cut_suffix (c : Char) (cs : List Char) : (Piece.cut c cs).2 <:+ cs := by
  fun_cases Piece.cut c cs with
  | case1 => exact List.suffix_rfl
  | case2 => exact List.suffix_rfl
  | case3 => exact cutQuoted_suffix cs
  | case4 => exact cutNumber_suffix c cs
  | case5 => exact List.dropWhile_suffix _
  | case6 => exact cutMark_suffix c cs

/-- Only a newline is cut off as one. -/
theorem eq_newline_of_cut {c : Char} {cs : List Char} (h : (Piece.cut c cs).1 = .newline) : c = '\n' := by
  by_contra hc
  unfold Piece.cut at h
  rw [if_neg hc] at h
  split_ifs at h with hblank hquote hdigit hword
  · unfold Piece.cutQuoted at h
    split at h <;> cases h
  · unfold Piece.cutMark at h
    split at h
    case h_10 => split at h <;> cases h
    all_goals cases h

/-- Every lexeme, or the error, has its line in `p`. -/
def LinesIn (p : Nat → Prop) : Except Error (List Lexeme) → Prop
  | .ok ts => ∀ l ∈ ts, p l.line
  | .error e => p e.line

theorem LinesIn.mono {p q : Nat → Prop} (hpq : ∀ n, p n → q n) {x : Except Error (List Lexeme)} (h : LinesIn p x) :
    LinesIn q x := by
  cases x with
  | error e => exact hpq _ h
  | ok ts => exact fun l hl => hpq _ (h l hl)

/-- The lexemes of a text, or its error, are on its lines. -/
theorem linesIn_scan (line : Nat) (cs : List Char) :
    LinesIn (fun n => line ≤ n ∧ n ≤ line + cs.count '\n') (scan line cs) := by
  -- what is left has no more newlines than the text
  have hcount : ∀ (c : Char) (cs : List Char), (Piece.cut c cs).2.count '\n' ≤ (c :: cs).count '\n' := by
    intro c cs
    exact ((cut_suffix c cs).trans (List.suffix_cons c cs)).sublist.count_le _
  fun_induction scan line cs with
  | case1 line => exact List.forall_mem_nil _
  | case2 line c cs t hcut ih =>
    have hrest := hcount c cs
    have ih := ih.mono (q := fun n => line ≤ n ∧ n ≤ line + (c :: cs).count '\n') (by omega)
    cases hscan : scan line (Piece.cut c cs).2 with
    | error e =>
      rw [hscan] at ih
      exact ih
    | ok ts =>
      rw [hscan] at ih
      exact List.forall_mem_cons.mpr ⟨⟨Nat.le_refl _, Nat.le_add_right _ _⟩, ih⟩
  | case3 line c cs hcut ih =>
    have hrest := hcount c cs
    exact ih.mono (by omega)
  | case4 line c cs hcut ih =>
    obtain rfl := eq_newline_of_cut hcut
    have hrest : (Piece.cut '\n' cs).2.count '\n' + 1 = ('\n' :: cs).count '\n' := by
      rw [List.count_cons_self]
      rfl
    exact ih.mono (by omega)
  | case5 line c cs text hcut => exact ⟨Nat.le_refl _, Nat.le_add_right _ _⟩

end Lexemes

/-- **An input fails on one of its lines.** -/
theorem Session.line_of_execute_error {s : Session} {input : String} {line : Nat} {e : Error}
    (h : s.execute input line = .error e) : line ≤ e.line ∧ e.line ≤ line + input.toList.count '\n' := by
  have hlines := linesIn_scan line input.toList
  rw [execute_eq_enact, Token.tokenize] at h
  cases hscan : Token.scan line input.toList with
  | error e' =>
    rw [hscan] at h hlines
    cases h
    exact hlines
  | ok ts =>
    rw [hscan] at h hlines
    -- move all other lines to the nearest one of the input
    let f : Nat → Nat := fun n => max line (min n (line + input.toList.count '\n'))
    have hfix : ∀ n, line ≤ n ∧ n ≤ line + input.toList.count '\n' → f n = n := by
      intro n hn
      show max line (min n _) = n
      omega
    have hts : ts.map (Lexeme.renumber f) = ts.map id :=
      List.map_congr_left fun l hl => congrArg (Lexeme.mk l.token) (hfix _ (hlines l hl))
    have hsame := enact_renumbered f s line ts
    rw [hts, List.map_id, hfix line ⟨Nat.le_refl _, Nat.le_add_right _ _⟩] at hsame
    have h : s.enact line ts = .error e := h
    obtain ⟨_, _, -, hok, -⟩ | ⟨_, _, rfl, he, he'⟩ := hsame.ok_or_error
    · cases h.symm.trans hok
    · cases h.symm.trans he
      have hline : e.line = f e.line := congrArg Error.line (Except.error.inj (h.symm.trans he'))
      rw [hline]
      show line ≤ max line (min e.line _) ∧ max line (min e.line _) ≤ _
      omega

end Listwise

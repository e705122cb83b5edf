import Listwise.Proofs.InPlace
import Listwise.Proofs.Lexing
import Listwise.Proofs.StatementGrammar

/-!
# Replaying what was shown

The text of a store is a script of definitions, one to a line, as long as its lists are plain: their names and texts
are names, and they refer to no other list (`Store.Plain`).

* `scan_signed`, `scan_named`: the tokens of a number, and of a name and what stands between two brackets.
* `scan_render`: the tokens of a list's line are those of a derivation.
* `execute_render`: the line defines the list again, with its numbers in their shortest form.
* `lines_render`: the script has the lines of its lists and no others.
* `Store.executeScript_render`: the script rebuilds the store, and so its text.
-/

namespace Listwise

open Grammar Grammar.Derivation

/-! ## Plain lists -/

/-- A number in its shortest form, a text as it is. -/
def Value.canonical : Value → Value
  | .number d => .number d.canonical
  | .text s => .text s

/-- The list with its numbers in their shortest form. -/
def NamedList.canonical (l : NamedList) : NamedList := { l with elements := l.elements.map Value.canonical }

/-- The store with all numbers in their shortest form. -/
def Store.canonical (s : Store) : Store := ⟨s.lists.map NamedList.canonical⟩

/-- Whether a value is a number, or a text that may be a name. -/
def Value.isPlain : Value → Bool
  | .number _ => true
  | .text s => Token.isName s

/-- A list that its line says all about. -/
structure NamedList.Plain (l : NamedList) : Prop where
  name : Token.isName l.name = true
  elements : ∀ v ∈ l.elements, v.isPlain = true
  reference : l.reference = none

/-- A store that its text says all about. -/
structure Store.Plain (s : Store) : Prop where
  lists : ∀ l ∈ s.lists, l.Plain
  names : s.names.Nodup

@[simp] theorem Value.render_canonical (v : Value) : v.canonical.render = v.render := by
  cases v with
  | number d => rw [canonical, render, render, Decimal.canonical_canonical]
  | text s => rfl

theorem NamedList.render_canonical (l : NamedList) : l.canonical.render = l.render := by
  simp only [render, canonical, List.map_map, Function.comp_def, Value.render_canonical]

theorem Store.render_canonical (s : Store) : s.canonical.render = s.render := by
  simp only [render, canonical, List.map_map, Function.comp_def, NamedList.render_canonical]

theorem Store.names_canonical (s : Store) : s.canonical.names = s.names := by
  simp only [names, canonical, List.map_map, Function.comp_def, NamedList.canonical]

/-! ## Derivations -/

/-- The derivation of digits with or without a minus sign in front of them, on line `n`. -/
def Grammar.Derivation.Number.ofSign (n : Nat) (negative : Bool) (digits : List Char) : Number :=
  if negative then .negative n (String.ofList digits) n else .plain (String.ofList digits) n

/-- The derivation of a number on line `n`. -/
def Decimal.derivation (n : Nat) (d : Decimal) : Number := .ofSign n d.negative d.magnitude

/-- The derivation of a value on line `n`. -/
def Value.derivation (n : Nat) : Value → Literal
  | .number d => .number (d.canonical.derivation n)
  | .text s => .word s n

/-- The derivation of values with commas between them on line `n`. -/
def Value.sequence (n : Nat) (v : Value) : List Value → Separated Literal
  | [] => .last (v.derivation n)
  | w :: ws => .more (v.derivation n) n (w.sequence n ws)

/-- The derivation of the values between two brackets on line `n`. -/
def Value.sequence? (n : Nat) : List Value → Option (Separated Literal)
  | [] => none
  | v :: vs => some (v.sequence n vs)

/-- The derivation of a list on line `n`. -/
def NamedList.derivation (n : Nat) (l : NamedList) : Derivation.Statement :=
  .definitions (.last ⟨l.name, n, n, .listed n (Value.sequence? n l.elements) n⟩)

section Scan

variable {n : Nat} {rest : List Char} {ts us : List Lexeme}

/-- The sign of a number is a token of its own. -/
theorem scan_signed {whole fraction : List Char} (hw : Token.IsDigits whole) (hf : ∀ c ∈ fraction, c.isDigit = true)
    (hr : Token.endsNumber rest = true) (hs : Token.scan n rest = .ok ts) (negative : Bool) :
    Token.scan n (Decimal.signChars negative ++ Decimal.positional whole fraction ++ rest) =
      .ok ((Number.ofSign n negative (Decimal.positional whole fraction)).yield ++ ts) := by
  have hdigits := Token.scan_number hw.1 hw.2 hf hr hs
  cases negative with
  | false => exact hdigits
  | true => exact Token.scan_token rfl hdigits

theorem scan_toText (d : Decimal) (hr : Token.endsNumber rest = true) (hs : Token.scan n rest = .ok ts) :
    Token.scan n (d.toText.toList ++ rest) = .ok ((d.derivation n).yield ++ ts) := by
  rw [Decimal.toText, String.toList_ofList, Decimal.toChars_eq]
  exact scan_signed ⟨d.wholeDigits_ne_nil, d.isDigit_wholeDigits⟩ d.isDigit_fractionDigits hr hs d.negative

theorem scan_value {v : Value} (hv : v.isPlain = true) {c : Char} {cs : List Char} (hc : c = ',' ∨ c = ']')
    (hs : Token.scan n (c :: cs) = .ok ts) :
    Token.scan n (v.render.toList ++ c :: cs) = .ok ((v.derivation n).yield ++ ts) := by
  cases v with
  | number d =>
    refine scan_toText d.canonical ?_ hs
    rcases hc with rfl | rfl <;> rfl
  | text s =>
    refine Token.scan_word hv ?_ hs
    intro x hx
    cases hx
    rcases hc with rfl | rfl <;> rfl

theorem scan_sequence {v : Value} {vs : List Value} (hv : ∀ w ∈ v :: vs, w.isPlain = true)
    (hs : Token.scan n (']' :: rest) = .ok ts) :
    Token.scan n ((",".intercalate ((v :: vs).map Value.render)).toList ++ ']' :: rest) =
      .ok ((v.sequence n vs).yield Literal.yield ++ ts) := by
  induction vs generalizing v with
  | nil =>
    rw [List.map_singleton, String.intercalate_singleton]
    exact scan_value (hv v List.mem_cons_self) (.inr rfl) hs
  | cons w ws ih =>
    obtain ⟨hv, hws⟩ := List.forall_mem_cons.mp hv
    have hcomma := Token.scan_token (c := ',') rfl (ih hws)
    rw [List.map_cons, List.map_cons, String.intercalate_cons_cons, ← List.map_cons, String.toList_append,
      String.toList_append, List.append_assoc, List.append_assoc, Value.sequence, Separated.yield,
      List.append_assoc]
    exact scan_value hv (.inl rfl) hcomma

theorem scan_elements {vs : List Value} (hv : ∀ v ∈ vs, v.isPlain = true)
    (hs : Token.scan n (']' :: rest) = .ok ts) :
    Token.scan n ((",".intercalate (vs.map Value.render)).toList ++ ']' :: rest) =
      .ok (Separated.yield? Literal.yield (Value.sequence? n vs) ++ ts) := by
  cases vs with
  | nil => exact hs
  | cons v vs => exact scan_sequence hv hs

theorem toList_render (l : NamedList) :
    l.render.toList = l.name.toList ++ ' ' :: '=' :: ' ' :: '[' ::
      ((",".intercalate (l.elements.map Value.render)).toList ++ [']']) := by
  rw [NamedList.render, String.toList_append, String.toList_append, String.toList_append, List.append_assoc,
    List.append_assoc]
  rfl

/-- A name and what stands between two brackets. -/
theorem scan_named {name : String} (hname : Token.isName name = true) {cs : List Char}
    (hcs : ∀ ts, Token.scan n [']'] = .ok ts → Token.scan n (cs ++ [']']) = .ok (us ++ ts)) :
    Token.scan n (name.toList ++ ' ' :: '=' :: ' ' :: '[' :: (cs ++ [']'])) =
      .ok (⟨.word name, n⟩ :: ⟨.equals, n⟩ :: ⟨.leftBracket, n⟩ :: (us ++ [⟨.rightBracket, n⟩])) := by
  have hclose : Token.scan n [']'] = .ok [⟨.rightBracket, n⟩] := by
    refine Token.scan_token rfl ?_
    rw [Token.scan]
  -- from the closing bracket backwards: a token is cut off knowing what follows it
  have hopen := Token.scan_token (c := '[') rfl (hcs _ hclose)
  refine Token.scan_word hname ?_ ((Token.scan_blank rfl).trans ?_)
  · intro c hc
    cases hc
    rfl
  · refine Token.scan_token rfl ((Token.scan_blank rfl).trans hopen)

/-- The line of a list is a definition. -/
theorem scan_render {l : NamedList} (hl : l.Plain) (n : Nat) :
    Token.scan n l.render.toList = .ok (l.derivation n).yield := by
  rw [toList_render]
  exact scan_named hl.name fun ts => scan_elements hl.elements

end Scan

/-! ## One line -/

section Line

variable {n : Nat}

theorem value_ofSign (negative : Bool) (digits : List Char) :
    (Number.ofSign n negative digits).value = String.ofList (Decimal.signChars negative ++ digits) := by
  cases negative with
  | false => rfl
  | true =>
    rw [String.ofList_append]
    rfl

theorem value_derivation (d : Decimal) : (d.derivation n).value = d.toText := by
  rw [Decimal.toText, Decimal.toChars_eq]
  exact value_ofSign d.negative d.magnitude

theorem read_derivation (line : Nat) (v : Value) :
    Written.Literal.value line (v.derivation n).value = .ok v.canonical := by
  cases v with
  | number d =>
    rw [Value.derivation, Literal.value, Written.Literal.value, value_derivation, readDecimal,
      Decimal.parse?_canonical_toText]
    rfl
  | text s => rfl

theorem values_sequence (v : Value) (vs : List Value) :
    (v.sequence n vs).values Literal.value = (v :: vs).map fun w => (w.derivation n).value := by
  induction vs generalizing v with
  | nil => rfl
  | cons w ws ih =>
    rw [Value.sequence, Separated.values, ih]
    rfl

theorem read_values (line : Nat) (vs : List Value) :
    (vs.map fun v => (v.derivation n).value).mapM (Written.Literal.value line) =
      .ok (vs.map Value.canonical) := by
  induction vs with
  | nil => rfl
  | cons v vs ih =>
    rw [List.map_cons, List.mapM_cons, read_derivation, ih]
    rfl

theorem read_sequence (line : Nat) (vs : List Value) :
    (Separated.values? Literal.value (Value.sequence? n vs)).mapM (Written.Literal.value line) =
      .ok (vs.map Value.canonical) := by
  cases vs with
  | nil => rfl
  | cons v vs =>
    rw [Value.sequence?, Separated.values?, Option.elim_some, values_sequence, read_values]

theorem toList_clause (limits : RangeLimits) (name : String) (vs : List Value) :
    Written.Clause.toList limits n ⟨name, .listed (Separated.values? Literal.value (Value.sequence? n vs))⟩ =
      .ok { name := name, elements := vs.map Value.canonical } := by
  rw [Written.Clause.toList, Written.Elements.values, read_sequence]
  rfl

theorem ofWritten_derivation (limits : RangeLimits) {l : NamedList} (hl : l.reference = none) :
    Statement.ofWritten limits ((l.derivation n).value n) = .ok (.definitions [l.canonical]) := by
  obtain ⟨name, vs, reference⟩ := l
  obtain rfl := hl
  rw [NamedList.derivation, Statement.value, Statement.ofWritten]
  dsimp only
  rw [Separated.values, List.mapM_cons, Clause.value, Headed.value, Elements.value, toList_clause]
  rfl

/-- The line of a list defines the list, with its numbers in their shortest form. -/
theorem execute_render (s : Session) {l : NamedList} (hl : l.Plain) (n : Nat) :
    s.execute l.render n = .ok ({ s with store := s.store.insert l.canonical }, []) := by
  have hparse : Written.Statement.parse? l.render n = .ok (some ((l.derivation n).value n)) :=
    parse?_eq_some.mpr ⟨l.derivation n, scan_render hl n, rfl⟩
  rw [Session.execute, hparse]
  show (do s.perform (← Statement.ofWritten s.limits ((l.derivation n).value n))) = _
  rw [ofWritten_derivation s.limits hl.reference]
  rfl

end Line

/-! ## Lines -/

section Lines

theorem splitLinesFrom_append {xs : List Char} (hxs : '\n' ∉ xs) (seen rest : List Char) :
    Text.splitLinesFrom '\n' '\r' seen (xs ++ '\n' :: rest) =
      Text.closeLine '\r' (xs.reverse ++ seen) :: Text.splitLinesFrom '\n' '\r' [] rest := by
  induction xs generalizing seen with
  | nil => rfl
  | cons x xs ih =>
    rw [List.mem_cons, not_or] at hxs
    obtain ⟨hx, hxs⟩ := hxs
    have hx : ¬ (x == '\n') = true := by simpa using Ne.symm hx
    rw [List.cons_append, Text.splitLinesFrom, if_neg hx, ih hxs, List.reverse_cons, List.append_assoc]
    rfl

theorem closeLine_reverse {xs : List Char} (h : xs.getLast? ≠ some '\r') : Text.closeLine '\r' xs.reverse = xs := by
  cases hr : xs.reverse with
  | nil => rw [List.reverse_eq_nil_iff.mp hr, Text.closeLine]
  | cons y ys =>
    have hy : ¬ (y == '\r') = true := by
      rintro he
      rw [beq_iff_eq] at he
      rw [List.getLast?_eq_head?_reverse, hr, he] at h
      exact h rfl
    rw [Text.closeLine, if_neg hy, ← hr, List.reverse_reverse]

/-- Texts on lines of their own are the lines, if none holds a newline or ends with a carriage return. -/
theorem lines_join {texts : List String}
    (h : ∀ t ∈ texts, '\n' ∉ t.toList ∧ t.toList.getLast? ≠ some '\r') :
    Text.lines (String.join (texts.map (· ++ "\n"))) = texts := by
  rw [Text.lines, Text.splitLines]
  induction texts with
  | nil => rfl
  | cons t texts ih =>
    obtain ⟨⟨hnewline, hcarriage⟩, htexts⟩ := List.forall_mem_cons.mp h
    have htoList : (String.join ((t :: texts).map (· ++ "\n"))).toList =
        t.toList ++ '\n' :: (String.join (texts.map (· ++ "\n"))).toList := by
      rw [List.map_cons, String.join_cons, String.toList_append, String.toList_append, List.append_assoc]
      rfl
    rw [htoList, splitLinesFrom_append hnewline, List.append_nil, closeLine_reverse hcarriage, List.map_cons,
      String.ofList_toList, ih htexts]

theorem mem_intercalate {c : Char} {texts : List String} (h : c ∈ (",".intercalate texts).toList) :
    c = ',' ∨ ∃ t ∈ texts, c ∈ t.toList := by
  induction texts with
  | nil => cases h
  | cons t texts ih =>
    cases texts with
    | nil =>
      rw [String.intercalate_singleton] at h
      exact .inr ⟨t, List.mem_cons_self, h⟩
    | cons u us =>
      rw [String.intercalate_cons_cons, String.toList_append, String.toList_append, List.mem_append,
        List.mem_append] at h
      rcases h with (h | h) | h
      · exact .inr ⟨t, List.mem_cons_self, h⟩
      · exact .inl (List.mem_singleton.mp h)
      · rcases ih h with hc | ⟨w, hw, hc⟩
        · exact .inl hc
        · exact .inr ⟨w, List.mem_cons_of_mem t hw, hc⟩

theorem ne_newline_of_mem_name {name : String} (hn : Token.isName name = true) {c : Char}
    (hc : c ∈ name.toList) : c ≠ '\n' := by
  rintro rfl
  cases Token.isWordPart_of_mem_name hn hc

theorem newline_not_mem_toText (d : Decimal) : '\n' ∉ d.toText.toList := by
  intro h
  rw [Decimal.toText, String.toList_ofList] at h
  rcases Decimal.mem_toChars h with h | h | h
  · cases h
  · cases h
  · exact Decimal.ne_of_isDigit (Decimal.isDigit_of_mem_paddedDigits h) (by decide) rfl

theorem newline_not_mem_value {v : Value} (hv : v.isPlain = true) : '\n' ∉ v.render.toList := by
  cases v with
  | number d => exact newline_not_mem_toText d.canonical
  | text s => exact fun h => ne_newline_of_mem_name hv h rfl

theorem newline_not_mem_render {l : NamedList} (hname : '\n' ∉ l.name.toList)
    (hvalues : ∀ v ∈ l.elements, '\n' ∉ v.render.toList) : '\n' ∉ l.render.toList := by
  intro h
  have hmark : '\n' ∉ [' ', '=', ' ', '['] ∧ '\n' ∉ [']'] := by decide
  rw [toList_render, show ∀ xs : List Char, ' ' :: '=' :: ' ' :: '[' :: xs = [' ', '=', ' ', '['] ++ xs
    from fun _ => rfl] at h
  rcases List.mem_append.mp h with h | h
  · exact hname h
  · rcases List.mem_append.mp h with h | h
    · exact hmark.1 h
    · rcases List.mem_append.mp h with h | h
      · rcases mem_intercalate h with h | ⟨t, ht, h⟩
        · cases h
        · obtain ⟨v, hv, rfl⟩ := List.mem_map.mp ht
          exact hvalues v hv h
      · exact hmark.2 h

theorem getLast?_render (l : NamedList) : l.render.toList.getLast? ≠ some '\r' := by
  rw [toList_render]
  simp [List.getLast?_cons, List.getLast?_append]

/-- The lines of a store's text are those of its lists. -/
theorem lines_render {s : Store} (hs : ∀ l ∈ s.lists, l.Plain) :
    Text.lines s.render = s.lists.map NamedList.render := by
  have hjoin : s.render = String.join ((s.lists.map NamedList.render).map (· ++ "\n")) := by
    rw [Store.render, List.map_map]
    rfl
  rw [hjoin]
  refine lines_join fun t ht => ?_
  obtain ⟨l, hl, rfl⟩ := List.mem_map.mp ht
  have hplain := hs l hl
  have hname : '\n' ∉ l.name.toList := fun h => ne_newline_of_mem_name hplain.name h rfl
  exact ⟨newline_not_mem_render hname fun v hv => newline_not_mem_value (hplain.elements v hv), getLast?_render l⟩

theorem not_isBlank_of_isWordStart {c : Char} (h : Token.isWordStart c = true) : Text.isBlank c = false := by
  rw [Token.isWordStart, Bool.or_eq_true, beq_iff_eq] at h
  rcases h with h | rfl
  · have hrange := Token.toNat_of_isAlpha h
    simp only [Text.isBlank, Bool.or_eq_false_iff, Bool.and_eq_false_iff, decide_eq_false_iff_not,
      beq_eq_false_iff_ne]
    omega
  · decide

/-- No line of a store's text is passed over. -/
theorem not_isIdle_render {l : NamedList} (hl : l.Plain) : Session.isIdle l.render = false := by
  obtain ⟨c, cs, hname, hc, -⟩ := Token.exists_cons_of_isName hl.name
  have hdrop : ∀ xs, (c :: xs).dropWhile Text.isBlank = c :: xs := by
    intro xs
    rw [List.dropWhile_cons, not_isBlank_of_isWordStart hc, if_neg Bool.false_ne_true]
  rw [Session.isIdle, toList_render, hname, List.cons_append, hdrop]
  split
  · next he => cases he
  · next he => exact absurd (List.cons_eq_cons.mp he).1 (Token.ne_of_isWordStart hc (by decide))
  · rfl

end Lines

/-! ## The whole store -/

section Whole

theorem put_of_not_mem {l : NamedList} {ls : List NamedList} (h : l.name ∉ ls.map (·.name)) :
    Store.put l ls = ls ++ [l] := by
  induction ls with
  | nil => rfl
  | cons x xs ih =>
    rw [List.map_cons, List.mem_cons, not_or] at h
    rw [Store.put, if_neg (Ne.symm h.1), ih h.2, List.cons_append]

theorem insertAll_of_nodup (ls : List NamedList) (s : Store)
    (h : (s.names ++ ls.map (·.name)).Nodup) : s.insertAll ls = ⟨s.lists ++ ls⟩ := by
  induction ls generalizing s with
  | nil =>
    rw [List.map_nil, List.append_nil] at *
    rfl
  | cons l ls ih =>
    have hl : l.name ∉ s.lists.map (·.name) := by
      intro hmem
      exact (List.nodup_append.mp h).2.2 _ hmem _ List.mem_cons_self rfl
    have hinsert : s.insert l = ⟨s.lists ++ [l]⟩ := by rw [Store.insert, put_of_not_mem hl]
    show (s.insert l).insertAll ls = _
    rw [hinsert, ih, List.append_assoc, List.singleton_append]
    simpa [Store.names, List.append_assoc] using h

theorem executeEach_render (ls : List NamedList) (hls : ∀ l ∈ ls, l.Plain) (s : Session) (n : Nat) :
    s.executeEach ((ls.map NamedList.render).zipIdx n) =
      ⟨{ s with store := s.store.insertAll (ls.map NamedList.canonical) }, [], none⟩ := by
  induction ls generalizing s n with
  | nil => rfl
  | cons l ls ih =>
    obtain ⟨hl, hls⟩ := List.forall_mem_cons.mp hls
    rw [List.map_cons, List.zipIdx_cons, Session.executeEach, execute_render s hl]
    dsimp only
    rw [ih hls]
    rfl

theorem executeScript_plain (limits : RangeLimits) {s : Store} (hs : s.Plain) :
    (Session.start limits).executeScript s.render = ⟨⟨limits, s.canonical⟩, [], none⟩ := by
  -- no line is passed over, so the lists keep their order
  have hinputs : Session.inputs s.render = (s.lists.map NamedList.render).zipIdx 1 := by
    rw [Session.inputs, lines_render hs.lists, List.filter_eq_self]
    rintro ⟨t, k⟩ hp
    obtain ⟨l, hl, rfl⟩ := List.mem_map.mp (List.fst_mem_of_mem_zipIdx hp)
    show (!Session.isIdle l.render) = true
    rw [not_isIdle_render (hs.lists l hl)]
    rfl
  have hnames : ((Store.empty).names ++ (s.lists.map NamedList.canonical).map (·.name)).Nodup := by
    have h := hs.names
    rwa [← s.names_canonical] at h
  rw [Session.executeScript, hinputs, executeEach_render s.lists hs.lists]
  show Transcript.mk ⟨limits, Store.empty.insertAll (s.lists.map NamedList.canonical)⟩ [] none = _
  rw [insertAll_of_nodup _ _ hnames]
  rfl

/-- **The text of a store can be replayed.**  Carried out as a script, in a session or in place, it succeeds and shows
nothing, whatever the range limits; it leaves the lists of the store in their order, with the same names and texts and
each number in its shortest form, and so the text of what it leaves is the text itself. -/
theorem Store.executeScript_render (limits : RangeLimits) (s : Store) (hs : s.Plain) :
    (Session.start limits).executeScript s.render = ⟨⟨limits, s.canonical⟩, [], none⟩ ∧
      (Environment.start limits).executeScript s.render = (.ok (), ⟨⟨limits, s.canonical⟩, [], .idle⟩) ∧
      s.canonical.names = s.names ∧ s.canonical.render = s.render := by
  have hsession := executeScript_plain limits hs
  refine ⟨hsession, ?_, s.names_canonical, s.render_canonical⟩
  rw [Environment.executeScript_eq rfl]
  exact congrArg (Environment.start limits).behind hsession

/-- Numbers with trailing zeros, of the largest scale and mantissa and of sign `-0`, a text, and an empty list. -/
theorem Store.executeScript_render_two_lists :
    let s : Store := ⟨[
      { name := "a",
        elements := [.number ⟨true, 2500, 3, by decide, by decide⟩, .number ⟨false, 7, 28, by decide, by decide⟩,
          .number ⟨true, 0, 5, by decide, by decide⟩,
          .number ⟨false, 79228162514264337593543950335, 28, by decide, by decide⟩, .text "inner"] },
      { name := "b_2", elements := [] }]⟩
    s.Plain ∧
      s.render = "a = [-2.5,0.0000000000000000000000000007,0,7.9228162514264337593543950335,inner]\nb_2 = []\n" ∧
      (Session.start .standard).executeScript s.render = ⟨⟨.standard, s.canonical⟩, [], none⟩ ∧
      (Environment.start .standard).executeScript s.render = (.ok (), ⟨⟨.standard, s.canonical⟩, [], .idle⟩) := by
  intro s
  have hs : s.Plain := by
    refine ⟨?_, by decide⟩
    intro l hl
    simp only [s, List.mem_cons, List.not_mem_nil, or_false] at hl
    rcases hl with rfl | rfl
    · exact ⟨rfl, by decide, rfl⟩
    · exact ⟨rfl, by decide, rfl⟩
  obtain ⟨hsession, hplace, -⟩ := Store.executeScript_render .standard s hs
  exact ⟨hs, rfl, hsession, hplace⟩

end Whole

end Listwise

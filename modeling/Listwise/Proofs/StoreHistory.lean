import Listwise.Proofs.InPlace
import Listwise.Proofs.NestedLoops
import Listwise.Proofs.Replay
import Listwise.Proofs.Results
import Listwise.Proofs.Spelling
import Mathlib.Data.List.Forall2
import Mathlib.Data.List.Induction

/-!
# The history of a store

Every list of a store was once defined by a clause or a comprehension of an input that succeeded.  `definitions calls`
are these lists in their order, and the store is what they leave when they go in one by one.

* `Storable`: what a clause or a comprehension defines has a name, texts without quotes and newlines, and no reference.
* `names_insertAll`, `get?_insertAll`: what lists leave that go in one by one.
* `store_afterCalls`: the store is what its history leaves.
* `store_keeps_history`: so it is the history in short.
-/

namespace Listwise

open Grammar Grammar.Derivation

/-! ## What may be defined -/

/-- Whether a value is a number, or a text that may stand between quotes. -/
def Value.isQuotable : Value → Bool
  | .number _ => true
  | .text s => Token.isQuotable s

/-- A list that may be in a store. -/
structure NamedList.Storable (l : NamedList) : Prop where
  name : Token.isName l.name = true
  elements : ∀ v ∈ l.elements, v.isQuotable = true
  reference : l.reference = none

/-! ## What is defined -/

/-- The lists that a statement defines when the store is as it is. -/
def Statement.lists (store : Store) : Statement → Except Error (List NamedList)
  | .definitions lists => .ok lists
  | .showAll => .ok []
  | .comprehension c => return [← c.run store]

/-- The lists that an input defines, the first clause first. -/
def Session.lists (s : Session) (input : String) (line : Nat) : Except Error (List NamedList) := do
  match ← Written.Statement.parse? input line with
  | none => return []
  | some w => (← Statement.ofWritten s.limits w).lists s.store

section Lists

theorem isQuotable_value {line : Nat} {x : Written.Literal} {v : Value} (hx : x.Spelled)
    (h : x.value line = .ok v) : v.isQuotable = true := by
  cases x with
  | number t =>
    obtain ⟨d, -, h⟩ := bind_eq_ok.mp h
    cases h
    rfl
  | text t =>
    cases h
    exact hx

theorem isQuotable_rangeValues {line : Nat} {lower upper : Decimal} {vs : List Value}
    (h : rangeValues line lower upper = .ok vs) : ∀ v ∈ vs, v.isQuotable = true := by
  unfold rangeValues at h
  split at h
  · cases h
    intro v hv
    obtain ⟨d, -, rfl⟩ := List.mem_map.mp hv
    rfl
  · cases h

theorem isQuotable_values {limits : RangeLimits} {line : Nat} {es : Written.Elements} {vs : List Value}
    (hes : es.Spelled) (h : es.values limits line = .ok vs) : ∀ v ∈ vs, v.isQuotable = true := by
  cases es with
  | listed items =>
    intro v hv
    obtain ⟨x, hx, hv⟩ := exists_of_mem_mapM h hv
    exact isQuotable_value (hes x hx) hv
  | between lower upper =>
    obtain ⟨lo, -, h⟩ := bind_eq_ok.mp h
    obtain ⟨hi, -, h⟩ := bind_eq_ok.mp h
    exact isQuotable_rangeValues h
  | above lower =>
    obtain ⟨lo, -, h⟩ := bind_eq_ok.mp h
    exact isQuotable_rangeValues h
  | below upper =>
    obtain ⟨hi, -, h⟩ := bind_eq_ok.mp h
    exact isQuotable_rangeValues h

theorem storable_toList {limits : RangeLimits} {line : Nat} {c : Written.Clause} {l : NamedList}
    (hc : c.Spelled) (h : c.toList limits line = .ok l) : l.Storable := by
  obtain ⟨vs, hvs, h⟩ := bind_eq_ok.mp h
  cases h
  exact ⟨hc.name, isQuotable_values hc.elements hvs, rfl⟩

theorem storable_run {c : Comprehension} {store : Store} {l : NamedList} (hc : Token.isName c.result = true)
    (h : c.run store = .ok l) : l.Storable := by
  obtain ⟨ds, rfl⟩ := Comprehension.run_ok h
  refine ⟨hc, ?_, rfl⟩
  intro v hv
  obtain ⟨d, -, rfl⟩ := List.mem_map.mp hv
  rfl

theorem storable_ofWritten {limits : RangeLimits} {store : Store} {w : Written.Statement} {st : Statement}
    {ls : List NamedList} (hw : w.form.Spelled) (hst : Statement.ofWritten limits w = .ok st)
    (hls : st.lists store = .ok ls) : ∀ l ∈ ls, l.Storable := by
  unfold Statement.ofWritten at hst
  split at hst
  · next cs hform =>
    obtain ⟨lists, hlists, hst⟩ := bind_eq_ok.mp hst
    cases hst
    cases hls
    rw [hform] at hw
    intro l hl
    obtain ⟨c, hc, hl⟩ := exists_of_mem_mapM hlists hl
    exact storable_toList (hw c hc) hl
  · cases hst
    cases hls
    exact List.forall_mem_nil _
  · next c hform =>
    obtain ⟨c', hc', hst⟩ := bind_eq_ok.mp hst
    cases hst
    obtain ⟨l, hl, hls⟩ := bind_eq_ok.mp hls
    cases hls
    rw [hform] at hw
    rw [List.forall_mem_singleton]
    exact storable_run ((read_eq_ok hc').1.symm ▸ hw.result) hl

/-- What an input defines may be in a store. -/
theorem storable_lists {s : Session} {input : String} {line : Nat} {ls : List NamedList}
    (h : s.lists input line = .ok ls) : ∀ l ∈ ls, l.Storable := by
  obtain ⟨r, hr, h⟩ := bind_eq_ok.mp h
  cases r with
  | none =>
    cases h
    exact List.forall_mem_nil _
  | some w =>
    obtain ⟨st, hst, hls⟩ := bind_eq_ok.mp h
    exact storable_ofWritten (spelled_parse? hr) hst hls

/-- A statement succeeds if all its lists can be made, and then they go in. -/
theorem Session.perform_lists (s : Session) (st : Statement) :
    (s.perform st).map Prod.fst = (st.lists s.store).map fun ls => { s with store := s.store.insertAll ls } := by
  cases st with
  | definitions lists => rfl
  | showAll => rfl
  | comprehension c =>
    rw [perform, Statement.lists]
    cases c.run s.store <;> rfl

/-- An input succeeds if all its lists can be made, and then they go in. -/
theorem Session.execute_lists (s : Session) (input : String) (line : Nat) :
    (s.execute input line).map Prod.fst =
      (s.lists input line).map fun ls => { s with store := s.store.insertAll ls } := by
  rw [execute, lists]
  cases Written.Statement.parse? input line with
  | error e => rfl
  | ok r =>
    cases r with
    | none => rfl
    | some w =>
      show (Statement.ofWritten s.limits w >>= s.perform).map Prod.fst =
        (Statement.ofWritten s.limits w >>= Statement.lists s.store).map _
      cases Statement.ofWritten s.limits w with
      | error e => rfl
      | ok st => exact perform_lists s st

end Lists

/-! ## Lists that go in one by one -/

section Lists

variable (l : NamedList) (ls : List NamedList)

theorem names_put :
    (Store.put l ls).map (·.name) =
      if l.name ∈ ls.map (·.name) then ls.map (·.name) else ls.map (·.name) ++ [l.name] := by
  by_cases hmem : l.name ∈ ls.map (·.name)
  · rw [if_pos hmem]
    induction ls with
    | nil => exact absurd hmem List.not_mem_nil
    | cons x xs ih =>
      rw [Store.put]
      by_cases hx : x.name = l.name
      · rw [if_pos hx, List.map_cons, List.map_cons, hx]
      · rw [List.map_cons, List.mem_cons] at hmem
        rw [if_neg hx, List.map_cons, List.map_cons, ih (hmem.resolve_left (Ne.symm hx))]
  · rw [if_neg hmem, put_of_not_mem hmem, List.map_append, List.map_singleton]

theorem find?_put (name : String) :
    (Store.put l ls).find? (·.name = name) = if l.name = name then some l else ls.find? (·.name = name) := by
  induction ls with
  | nil => by_cases hl : l.name = name <;> simp [Store.put, hl]
  | cons x xs ih =>
    rw [Store.put]
    by_cases hx : x.name = l.name
    · rw [if_pos hx]
      by_cases hl : l.name = name
      · simp [hl]
      · have hxn : ¬ x.name = name := fun h => hl (hx ▸ h)
        simp [hl, hxn]
    · rw [if_neg hx]
      by_cases hxn : x.name = name
      · have hl : ¬ l.name = name := fun h => hx (hxn.trans h.symm)
        simp [hl, hxn]
      · simp [hxn, ih]

theorem get?_insert_self (store : Store) (l : NamedList) : (store.insert l).get? l.name = some l := by
  rw [Store.insert, Store.get?, find?_put, if_pos rfl]

@[simp] theorem Store.get?_empty (name : String) : Store.empty.get? name = none := rfl

theorem insertAll_append (s : Store) (ls' : List NamedList) :
    s.insertAll (ls ++ ls') = (s.insertAll ls).insertAll ls' :=
  List.foldl_append

theorem insertAll_concat (s : Store) : s.insertAll (ls ++ [l]) = (s.insertAll ls).insert l :=
  List.foldl_concat ..

theorem eraseDups_concat (names : List String) (name : String) :
    (names ++ [name]).eraseDups = if name ∈ names then names.eraseDups else names.eraseDups ++ [name] := by
  rw [List.eraseDups_append]
  by_cases h : name ∈ names <;> simp [List.removeAll, List.eraseDups_cons, h]

/-- Names come in the order in which they first came up. -/
theorem names_insertAll : (Store.empty.insertAll ls).names = (ls.map (·.name)).eraseDups := by
  induction ls using List.reverseRecOn with
  | nil => rfl
  | append_singleton ls l ih =>
    have hput : ((Store.empty.insertAll ls).insert l).names = _ := names_put l (Store.empty.insertAll ls).lists
    have hmem : l.name ∈ (Store.empty.insertAll ls).names ↔ l.name ∈ ls.map (·.name) := by
      rw [ih, List.mem_eraseDups]
    rw [insertAll_concat, hput, List.map_append, List.map_singleton, eraseDups_concat, ← ih]
    exact if_congr hmem rfl rfl

/-- The list of a name is the last one of the name that went in, or the one that was there. -/
theorem get?_insertAll (s : Store) (name : String) :
    (s.insertAll ls).get? name = (ls.reverse.find? (·.name = name)).or (s.get? name) := by
  induction ls using List.reverseRecOn with
  | nil => rfl
  | append_singleton ls l ih =>
    rw [insertAll_concat, Store.insert, Store.get?, find?_put, List.reverse_append, List.reverse_singleton,
      List.singleton_append, List.find?_cons]
    by_cases hl : l.name = name
    · simp [hl]
    · rw [if_neg hl, decide_eq_false hl]
      exact ih

theorem nodup_insertAll : (Store.empty.insertAll ls).names.Nodup := by
  induction ls using List.reverseRecOn with
  | nil => exact List.nodup_nil
  | append_singleton ls l ih =>
    have hput : ((Store.empty.insertAll ls).insert l).names = _ := names_put l (Store.empty.insertAll ls).lists
    rw [insertAll_concat, hput]
    split_ifs with hl
    · exact ih
    · rw [← List.concat_eq_append]
      exact ih.concat hl

theorem get?_of_mem {s : Store} (hs : s.names.Nodup) {l : NamedList} (hl : l ∈ s.lists) :
    s.get? l.name = some l := by
  obtain ⟨ls⟩ := s
  rw [Store.get?]
  induction ls with
  | nil => exact absurd hl List.not_mem_nil
  | cons x xs ih =>
    obtain ⟨hx, hxs⟩ := List.nodup_cons.mp hs
    rcases List.mem_cons.mp hl with rfl | hl
    · simp
    · have hne : ¬ x.name = l.name := fun h => hx (List.mem_map.mpr ⟨l, hl, h.symm⟩)
      simpa [hne] using ih hxs hl

theorem mem_of_mem_insertAll {l : NamedList} (hl : l ∈ (Store.empty.insertAll ls).lists) : l ∈ ls := by
  -- a stored list is found under its name, and what is found there went in last
  have hget := get?_of_mem (nodup_insertAll ls) hl
  rw [get?_insertAll, Store.get?_empty, Option.or_none] at hget
  exact List.mem_reverse.mp (List.mem_of_find?_eq_some hget)

end Lists

/-! ## Histories -/

/-- The inputs that a call carries out, up to the first that fails. -/
def Call.inputs : Call → List (String × Nat)
  | .execute input => [(input, 1)]
  | .executeLine input line => [(input, line)]
  | .executeScript script => Session.inputs script

namespace Environment

/-- The environment after calls, whether they succeed or not. -/
def afterCalls (env : Environment) : List Call → Environment
  | [] => env
  | c :: cs => (c.make env).2.afterCalls cs

/-- The lists that inputs define, up to the first that fails. -/
def definitionsEach (env : Environment) : List (String × Nat) → List NamedList
  | [] => []
  | (input, line) :: rest =>
    match env.toSession.lists input line with
    | .ok lists => lists ++ (env.executeLine input line).2.definitionsEach rest
    | .error _ => []

/-- The lists that calls define, the oldest first. -/
def definitions (env : Environment) : List Call → List NamedList
  | [] => []
  | c :: cs => env.definitionsEach c.inputs ++ (c.make env).2.definitions cs

section Histories

variable {env : Environment}

theorem make_eq (env : Environment) (c : Call) : c.make env = env.executeEach c.inputs := by
  have hone : ∀ input line, env.executeLine input line = env.executeEach [(input, line)] := by
    intro input line
    rw [executeEach]
    split
    · next h => rw [h, executeEach]
    · next h => exact h
  cases c with
  | execute input => exact hone input 1
  | executeLine input line => exact hone input line
  | executeScript script => rfl

/-- What an input can do: it fails and changes nothing, or its lists go in. -/
theorem executeLine_cases (hidle : env.activity = .idle) (input : String) (line : Nat) :
    (∃ e, env.toSession.lists input line = .error e ∧ env.executeLine input line = (.error e, env)) ∨
      ∃ ls env', env.toSession.lists input line = .ok ls ∧ env.executeLine input line = (.ok (), env') ∧
        env'.store = env.store.insertAll ls := by
  have hfst := env.toSession.execute_lists input line
  rw [executeLine_eq hidle]
  generalize env.toSession.execute input line = x, env.toSession.lists input line = y at hfst ⊢
  cases x with
  | error e =>
    cases y with
    | error e' =>
      cases hfst
      exact .inl ⟨e, rfl, rfl⟩
    | ok ls => cases hfst
  | ok r =>
    cases y with
    | error e' => cases hfst
    | ok ls => exact .inr ⟨ls, _, rfl, rfl, congrArg Session.store (Except.ok.inj hfst)⟩

theorem store_executeEach (hidle : env.activity = .idle) (inputs : List (String × Nat)) :
    (env.executeEach inputs).2.store = env.store.insertAll (env.definitionsEach inputs) ∧
      (env.executeEach inputs).2.activity = .idle := by
  induction inputs generalizing env with
  | nil => exact ⟨rfl, hidle⟩
  | cons i inputs ih =>
    obtain ⟨input, line⟩ := i
    have hnext := ih (activity_executeLine env input line)
    rw [definitionsEach, executeEach]
    rcases executeLine_cases hidle input line with ⟨e, hlists, hx⟩ | ⟨ls, env', hlists, hx, hstore⟩
    · rw [hlists, hx]
      exact ⟨rfl, hidle⟩
    · rw [hx] at hnext
      rw [hlists, hx]
      dsimp only
      rw [insertAll_append, ← hstore]
      exact hnext

/-- **A store is what its history leaves.** -/
theorem store_afterCalls (hidle : env.activity = .idle) (calls : List Call) :
    (env.afterCalls calls).store = env.store.insertAll (env.definitions calls) := by
  induction calls generalizing env with
  | nil => rfl
  | cons c calls ih =>
    obtain ⟨hstore, hactivity⟩ := store_executeEach hidle c.inputs
    rw [← make_eq] at hstore hactivity
    rw [afterCalls, definitions, ih hactivity, insertAll_append, hstore]

theorem storable_definitionsEach (inputs : List (String × Nat)) :
    ∀ l ∈ env.definitionsEach inputs, l.Storable := by
  induction inputs generalizing env with
  | nil => exact List.forall_mem_nil _
  | cons i inputs ih =>
    rw [definitionsEach]
    split
    · next lists hlists => exact List.forall_mem_append.mpr ⟨storable_lists hlists, ih⟩
    · exact List.forall_mem_nil _

theorem storable_definitions (calls : List Call) : ∀ l ∈ env.definitions calls, l.Storable := by
  induction calls generalizing env with
  | nil => exact List.forall_mem_nil _
  | cons c calls ih => exact List.forall_mem_append.mpr ⟨storable_definitionsEach c.inputs, ih⟩

end Histories

end Environment

/-! ## The history in short -/

/-- A store that is a history of definitions in short. -/
structure Store.Keeps (s : Store) (history : List NamedList) : Prop where
  /-- No two lists have the same name. -/
  distinct : s.names.Nodup
  /-- A list is found under its own name, which is a word other than `show` and `in`. -/
  keys : ∀ l ∈ s.lists, s.get? l.name = some l ∧ Token.isName l.name = true
  /-- Names come in the order of their first definition. -/
  order : s.names = (history.map (·.name)).eraseDups
  /-- The list of a name is that of its last definition. -/
  latest : ∀ name, s.get? name = history.reverse.find? (·.name = name)
  /-- No list refers to another one. -/
  references : ∀ l ∈ s.lists, l.reference = none
  /-- No text holds a quote or a newline. -/
  texts : ∀ l ∈ s.lists, ∀ text, .text text ∈ l.elements → '"' ∉ text.toList ∧ '\n' ∉ text.toList
  /-- The text of the store is one line for each list, which begins with its name. -/
  rows : ∃ rows : List String, s.render = String.join (rows.map (· ++ "\n")) ∧
    List.Forall₂ (fun name row => '\n' ∉ row.toList ∧ ∃ rest, row = name ++ " = [" ++ rest) s.names rows

section Short

theorem NamedList.Storable.newline_not_mem {l : NamedList} (hl : l.Storable) : '\n' ∉ l.render.toList := by
  refine newline_not_mem_render (fun h => ne_newline_of_mem_name hl.name h rfl) ?_
  intro v hv
  cases v with
  | number d => exact newline_not_mem_toText d.canonical
  | text s => exact (Token.isQuotable_iff.mp (hl.elements _ hv)).2

theorem rows_of_storable {s : Store} (hs : ∀ l ∈ s.lists, l.Storable) :
    List.Forall₂ (fun name row => '\n' ∉ row.toList ∧ ∃ rest, row = name ++ " = [" ++ rest) s.names
      (s.lists.map NamedList.render) := by
  rw [Store.names, List.forall₂_map_left_iff, List.forall₂_map_right_iff, List.forall₂_same]
  intro l hl
  refine ⟨(hs l hl).newline_not_mem, ",".intercalate (l.elements.map Value.render) ++ "]", ?_⟩
  rw [NamedList.render, String.append_assoc]

/-- Lists that may be in a store leave one that keeps them. -/
theorem keeps_insertAll {history : List NamedList} (h : ∀ l ∈ history, l.Storable) :
    (Store.empty.insertAll history).Keeps history := by
  have hstored : ∀ l ∈ (Store.empty.insertAll history).lists, l.Storable :=
    fun l hl => h l (mem_of_mem_insertAll history hl)
  exact {
    distinct := nodup_insertAll history
    keys := fun l hl => ⟨get?_of_mem (nodup_insertAll history) hl, (hstored l hl).name⟩
    order := names_insertAll history
    latest := fun name => by rw [get?_insertAll, Store.get?_empty, Option.or_none]
    references := fun l hl => (hstored l hl).reference
    texts := fun l hl text ht => Token.isQuotable_iff.mp ((hstored l hl).elements _ ht)
    rows := ⟨_, by rw [Store.render, List.map_map]; rfl, rows_of_storable hstored⟩ }

/-- **A store is its history in short.**  Whatever calls are made of an environment that had no lists, the names of
its store are distinct words and no others than those that were defined, in the order of their first definition; under
each is the list of its last definition, without a reference and without quotes and newlines in its texts; and the
text of the store is one line for each list. -/
theorem store_keeps_history (limits : RangeLimits) (calls : List Call) :
    ((Environment.start limits).afterCalls calls).store.Keeps ((Environment.start limits).definitions calls) := by
  have hstore : ((Environment.start limits).afterCalls calls).store = _ := Environment.store_afterCalls rfl calls
  rw [hstore]
  exact keeps_insertAll (Environment.storable_definitions calls)

end Short

end Listwise

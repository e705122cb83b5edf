import Listwise.Proofs.StoreHistory

/-!
# What an input reads and writes

An input writes the lists that it defines and reads the stored lists that its bindings refer to.  Both can be told
from its text.

* `definedBy`, `referredBy`: the names of these lists.
* `lists_congr`: what an input defines depends on the lists it refers to, and on no others.
* `names_lists`, `get?_insertAll_of_not_mem`, `names_prefix_insertAll`: it leaves all other lists alone, and all names
  in their places.
* `independent_inputs_commute`: so inputs that do not write what the other one reads or writes commute.
-/

namespace Listwise

/-! ## Definitions -/

/-- The list that a source refers to. -/
def Written.Source.list? : Written.Source → Option String
  | .list name => some name
  | .inline _ => none

/-- The names that a statement defines. -/
def Written.Form.defined : Written.Form → List String
  | .definitions clauses => clauses.map (·.name)
  | .showAll => []
  | .comprehension c => [c.result]

/-- The lists that the bindings of a statement refer to. -/
def Written.Form.referred : Written.Form → List String
  | .definitions _ => []
  | .showAll => []
  | .comprehension c => c.bindings.filterMap (·.source.list?)

/-- The names that an input defines; none if it is no statement. -/
def definedBy (input : String) (line : Nat) : List String :=
  match Written.Statement.parse? input line with
  | .ok (some w) => w.form.defined
  | _ => []

/-- The lists that the bindings of an input refer to; none if it is no statement. -/
def referredBy (input : String) (line : Nat) : List String :=
  match Written.Statement.parse? input line with
  | .ok (some w) => w.form.referred
  | _ => []

/-- The lists that an input puts into the store: those that it defines, or none if it fails. -/
def Session.additions (s : Session) (input : String) (line : Nat) : List NamedList :=
  (s.lists input line).toOption.getD []

/-! ## Reading -/

section Reading

variable {s t : Store}

theorem resolve_congr {b : NamedList} (h : ∀ name ∈ b.reference, s.get? name = t.get? name) (line : Nat) :
    s.resolve line b = t.resolve line b := by
  unfold Store.resolve
  split
  · next name hname _ => rw [h name hname]
  · rfl

theorem sourcesFrom_congr {bs : List NamedList} (h : ∀ b ∈ bs, ∀ name ∈ b.reference, s.get? name = t.get? name)
    (line : Nat) (bound : List String) :
    Comprehension.sourcesFrom s line bound bs = Comprehension.sourcesFrom t line bound bs := by
  induction bs generalizing bound with
  | nil => rfl
  | cons b bs ih =>
    obtain ⟨hb, hbs⟩ := List.forall_mem_cons.mp h
    simp only [Comprehension.sourcesFrom, resolve_congr hb line, ih hbs]

/-- A comprehension reads the lists that its bindings refer to. -/
theorem run_congr {c : Comprehension} (h : ∀ b ∈ c.bindings, ∀ name ∈ b.reference, s.get? name = t.get? name) :
    c.run s = c.run t := by
  simp only [Comprehension.run, Comprehension.sources, sourcesFrom_congr h]

theorem reference_toList {limits : RangeLimits} {line : Nat} {b : Written.Binding} {l : NamedList}
    (h : b.toList limits line = .ok l) : l.reference = b.source.list? := by
  unfold Written.Binding.toList at h
  split at h
  · next name hsource =>
    cases h
    rw [hsource]
    rfl
  · next es hsource =>
    obtain ⟨vs, -, h⟩ := bind_eq_ok.mp h
    cases h
    rw [hsource]
    rfl

/-- The references of a comprehension are those that are written. -/
theorem mem_referred {limits : RangeLimits} {line : Nat} {w : Written.Comprehension} {c : Comprehension}
    (h : w.read limits line = .ok c) {b : NamedList} (hb : b ∈ c.bindings) {name : String}
    (hname : name ∈ b.reference) : name ∈ (Written.Form.comprehension w).referred := by
  obtain ⟨b', hb', hlist⟩ := exists_of_mem_mapM (bindings_of_read h) hb
  rw [reference_toList hlist] at hname
  exact List.mem_filterMap.mpr ⟨b', hb', hname⟩

theorem statement_lists_congr {limits : RangeLimits} {w : Written.Statement} {st : Statement}
    (hst : Statement.ofWritten limits w = .ok st) (h : ∀ name ∈ w.form.referred, s.get? name = t.get? name) :
    st.lists s = st.lists t := by
  unfold Statement.ofWritten at hst
  split at hst
  · obtain ⟨ls, -, hst⟩ := bind_eq_ok.mp hst
    cases hst
    rfl
  · cases hst
    rfl
  · next w' hform =>
    obtain ⟨c, hc, hst⟩ := bind_eq_ok.mp hst
    cases hst
    rw [hform] at h
    rw [Statement.lists, Statement.lists, run_congr fun b hb name hname => h name (mem_referred hc hb hname)]

/-- **An input reads the lists that it refers to, and no others.** -/
theorem lists_congr {s t : Session} (hlimits : s.limits = t.limits) {input : String} {line : Nat}
    (h : ∀ name ∈ referredBy input line, s.store.get? name = t.store.get? name) :
    s.lists input line = t.lists input line := by
  unfold referredBy at h
  unfold Session.lists
  cases hparse : Written.Statement.parse? input line with
  | error e => rfl
  | ok r =>
    cases r with
    | none => rfl
    | some w =>
      rw [hparse] at h
      show (Statement.ofWritten s.limits w >>= fun st => st.lists s.store) =
        Statement.ofWritten t.limits w >>= fun st => st.lists t.store
      rw [← hlimits]
      cases hst : Statement.ofWritten s.limits w with
      | error e => rfl
      | ok st => exact statement_lists_congr hst h

end Reading

/-! ## Writing -/

section Writing

variable {s : Store} {ls : List NamedList}

theorem names_mapM {limits : RangeLimits} {line : Nat} {cs : List Written.Clause}
    (h : cs.mapM (Written.Clause.toList limits line) = .ok ls) : ls.map (·.name) = cs.map (·.name) := by
  induction cs generalizing ls with
  | nil =>
    cases h
    rfl
  | cons c cs ih =>
    rw [List.mapM_cons] at h
    obtain ⟨l, hl, h⟩ := bind_eq_ok.mp h
    obtain ⟨ls', hls', h⟩ := bind_eq_ok.mp h
    obtain ⟨vs, -, hl⟩ := bind_eq_ok.mp hl
    cases h
    cases hl
    rw [List.map_cons, List.map_cons, ih hls']

theorem names_statement_lists {limits : RangeLimits} {w : Written.Statement} {st : Statement}
    (hst : Statement.ofWritten limits w = .ok st) (hls : st.lists s = .ok ls) :
    ls.map (·.name) = w.form.defined := by
  unfold Statement.ofWritten at hst
  split at hst
  · next cs hform =>
    obtain ⟨ls', hls', hst⟩ := bind_eq_ok.mp hst
    cases hst
    cases hls
    rw [hform, Written.Form.defined, names_mapM hls']
  · next hform =>
    cases hst
    cases hls
    rw [hform]
    rfl
  · next w' hform =>
    obtain ⟨c, hc, hst⟩ := bind_eq_ok.mp hst
    cases hst
    obtain ⟨l, hl, hls⟩ := bind_eq_ok.mp hls
    cases hls
    obtain ⟨ds, rfl⟩ := Comprehension.run_ok hl
    rw [hform, Written.Form.defined, ← (read_eq_ok hc).1]
    rfl

/-- An input defines the names that its text says. -/
theorem names_lists {s : Session} {input : String} {line : Nat} (h : s.lists input line = .ok ls) :
    ls.map (·.name) = definedBy input line := by
  unfold definedBy
  obtain ⟨r, hr, h⟩ := bind_eq_ok.mp h
  rw [hr]
  cases r with
  | none =>
    cases h
    rfl
  | some w =>
    obtain ⟨st, hst, hls⟩ := bind_eq_ok.mp h
    exact names_statement_lists hst hls

theorem names_additions {s : Session} {input : String} {line : Nat} {l : NamedList}
    (hl : l ∈ s.additions input line) : l.name ∈ definedBy input line := by
  unfold Session.additions at hl
  cases hlists : s.lists input line with
  | error e =>
    rw [hlists] at hl
    cases hl
  | ok ls =>
    rw [hlists] at hl
    rw [← names_lists hlists]
    exact List.mem_map_of_mem hl

theorem find?_eq_none_of_not_mem {name : String} (h : name ∉ ls.map (·.name)) :
    ls.reverse.find? (·.name = name) = none := by
  rw [List.find?_eq_none]
  intro l hl hname
  exact h (List.mem_map.mpr ⟨l, List.mem_reverse.mp hl, of_decide_eq_true hname⟩)

/-- Lists that go in leave those of other names alone. -/
theorem get?_insertAll_of_not_mem {name : String} (h : name ∉ ls.map (·.name)) :
    (s.insertAll ls).get? name = s.get? name := by
  rw [get?_insertAll, find?_eq_none_of_not_mem h, Option.none_or]

/-- Names that are there keep their places. -/
theorem names_prefix_insertAll (s : Store) (ls : List NamedList) : s.names <+: (s.insertAll ls).names := by
  induction ls generalizing s with
  | nil => exact List.prefix_rfl
  | cons l ls ih =>
    refine List.IsPrefix.trans ?_ (ih (s.insert l))
    show s.names <+: (Store.put l s.lists).map (·.name)
    rw [names_put]
    split_ifs
    · exact List.prefix_rfl
    · exact List.prefix_append s.names [l.name]

/-- Lists of different names may go in in either order. -/
theorem get?_insertAll_comm {ls' : List NamedList} (h : (ls.map (·.name)).Disjoint (ls'.map (·.name)))
    (s : Store) (name : String) :
    ((s.insertAll ls).insertAll ls').get? name = ((s.insertAll ls').insertAll ls).get? name := by
  by_cases hname : name ∈ ls.map (·.name)
  · have hname' : name ∉ ls'.map (·.name) := fun hmem => h hname hmem
    rw [get?_insertAll_of_not_mem hname', get?_insertAll, get?_insertAll ls (s.insertAll ls'),
      get?_insertAll_of_not_mem hname']
  · rw [get?_insertAll_of_not_mem hname, get?_insertAll, get?_insertAll ls' s,
      get?_insertAll_of_not_mem hname]

end Writing

/-! ## Two inputs -/

namespace Environment

/-- What an input gives and leaves: the lists that it defines go in, or none if it fails. -/
theorem executeLine_lists (env : Environment) (input : String) (line : Nat) :
    (env.executeLine input line).1 = (env.toSession.lists input line).map (fun _ => ()) ∧
      (env.executeLine input line).2.toSession =
        { env.toSession with store := env.store.insertAll (env.toSession.additions input line) } := by
  have hfst := env.toSession.execute_lists input line
  rw [executeLine_after, Session.additions]
  generalize env.toSession.execute input line = x, env.toSession.lists input line = y at hfst ⊢
  cases x with
  | error e =>
    cases y with
    | error e' =>
      cases hfst
      exact ⟨rfl, rfl⟩
    | ok ls => cases hfst
  | ok r =>
    cases y with
    | error e' => cases hfst
    | ok ls => exact ⟨rfl, Except.ok.inj hfst⟩

section Commuting

variable {env : Environment} {input₁ input₂ : String} {line₁ line₂ : Nat}

/-- Behind an input that writes nothing it refers to, an input defines what it would have defined before. -/
theorem lists_executeLine (h : (definedBy input₁ line₁).Disjoint (referredBy input₂ line₂)) :
    (env.executeLine input₁ line₁).2.toSession.lists input₂ line₂ = env.toSession.lists input₂ line₂ := by
  rw [(executeLine_lists env input₁ line₁).2]
  apply lists_congr
  · rfl
  · intro name hname
    refine get?_insertAll_of_not_mem fun hmem => ?_
    obtain ⟨l, hl, rfl⟩ := List.mem_map.mp hmem
    exact h (names_additions hl) hname

theorem store_executeLine_executeLine (h : (definedBy input₁ line₁).Disjoint (referredBy input₂ line₂)) :
    ((env.executeLine input₁ line₁).2.executeLine input₂ line₂).2.store =
      (env.store.insertAll (env.toSession.additions input₁ line₁)).insertAll
        (env.toSession.additions input₂ line₂) := by
  rw [(executeLine_lists _ input₂ line₂).2, Session.additions, lists_executeLine h,
    (executeLine_lists env input₁ line₁).2]
  rfl

/-- **Independent inputs commute.**  Of two inputs, neither defines a list that the other one defines or refers to.
Then each gives the same in either order, be it an error or none; under every name there is the same list at the end;
and the names that were there keep their places. -/
theorem independent_inputs_commute (env : Environment)
    (hdefined : (definedBy input₁ line₁).Disjoint (definedBy input₂ line₂))
    (hreferred₂ : (definedBy input₁ line₁).Disjoint (referredBy input₂ line₂))
    (hreferred₁ : (definedBy input₂ line₂).Disjoint (referredBy input₁ line₁)) :
    let first := env.executeLine input₁ line₁
    let thenSecond := first.2.executeLine input₂ line₂
    let second := env.executeLine input₂ line₂
    let thenFirst := second.2.executeLine input₁ line₁
    thenFirst.1 = first.1 ∧ thenSecond.1 = second.1 ∧
      (∀ name, thenSecond.2.store.get? name = thenFirst.2.store.get? name) ∧
      env.store.names <+: thenSecond.2.store.names ∧ env.store.names <+: thenFirst.2.store.names := by
  intro first thenSecond second thenFirst
  have hresult₁ : thenFirst.1 = first.1 := by
    rw [(executeLine_lists _ input₁ line₁).1, lists_executeLine hreferred₁, (executeLine_lists env input₁ line₁).1]
  have hresult₂ : thenSecond.1 = second.1 := by
    rw [(executeLine_lists _ input₂ line₂).1, lists_executeLine hreferred₂, (executeLine_lists env input₂ line₂).1]
  have hstore₂ : thenSecond.2.store = _ := store_executeLine_executeLine hreferred₂
  have hstore₁ : thenFirst.2.store = _ := store_executeLine_executeLine hreferred₁
  have hdisjoint : ((env.toSession.additions input₁ line₁).map (·.name)).Disjoint
      ((env.toSession.additions input₂ line₂).map (·.name)) := by
    intro name h₁ h₂
    obtain ⟨l₁, hl₁, rfl⟩ := List.mem_map.mp h₁
    obtain ⟨l₂, hl₂, hname⟩ := List.mem_map.mp h₂
    have hname : l₂.name = l₁.name := hname
    exact hdefined (names_additions hl₁) (hname ▸ names_additions hl₂)
  refine ⟨hresult₁, hresult₂, ?_, ?_, ?_⟩
  · intro name
    rw [hstore₂, hstore₁, get?_insertAll_comm hdisjoint]
  · rw [hstore₂]
    exact (names_prefix_insertAll _ _).trans (names_prefix_insertAll _ _)
  · rw [hstore₁]
    exact (names_prefix_insertAll _ _).trans (names_prefix_insertAll _ _)

/-- A definition that replaces a list, and a comprehension that fails at the second number of another one. -/
theorem independent_inputs_commute_failing :
    let env : Environment := ⟨⟨.standard, ⟨[{ name := "A", elements := [.number 1, .number 0] },
      { name := "B", elements := [.text "x"] }]⟩⟩, [], .idle⟩
    let one := "D = 1..2, B = [y, 5], D = [z]"
    let two := "C = [1 / v | v in A, w in [2]]"
    (definedBy one 1).Disjoint (definedBy two 2) ∧ (definedBy one 1).Disjoint (referredBy two 2) ∧
      (definedBy two 2).Disjoint (referredBy one 1) ∧
      ((env.executeLine one 1).2.executeLine two 2).1 = .error ⟨.arithmetic .divisionByZero "1 / v", 2⟩ ∧
      ∀ name, ((env.executeLine one 1).2.executeLine two 2).2.store.get? name =
        ((env.executeLine two 2).2.executeLine one 1).2.store.get? name := by
  intro env one two
  have hone : definedBy one 1 = ["D", "B", "D"] ∧ referredBy one 1 = [] := by decide +kernel
  have htwo : definedBy two 2 = ["C"] ∧ referredBy two 2 = ["A"] := by decide +kernel
  have hfails : (env.executeLine two 2).1 = .error ⟨.arithmetic .divisionByZero "1 / v", 2⟩ := by decide +kernel
  have hdefined : (definedBy one 1).Disjoint (definedBy two 2) := by
    rw [hone.1, htwo.1]
    simp
  have hreferred₂ : (definedBy one 1).Disjoint (referredBy two 2) := by
    rw [hone.1, htwo.2]
    simp
  have hreferred₁ : (definedBy two 2).Disjoint (referredBy one 1) := by
    rw [htwo.1, hone.2]
    simp
  obtain ⟨-, hresult, hstore, -⟩ := independent_inputs_commute env hdefined hreferred₂ hreferred₁
  exact ⟨hdefined, hreferred₂, hreferred₁, hresult.trans hfails, hstore⟩

end Commuting

end Environment

end Listwise

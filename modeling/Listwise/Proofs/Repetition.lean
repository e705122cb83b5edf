import Listwise.Proofs.Footprint
import Listwise.Proofs.StartingLine

/-!
# Inputs that are repeated

An input that has succeeded may be carried out again and again.  Its lists are made of what they were made of the first
time, unless it refers to one that it defines itself; and lists that go in again find their names in their places, where
the last list of each name is what is left of them, as it was before.

* `put_put_of_name_eq`, `put_comm`, `put_eq_self`: what a list that goes in does to one that went in before it.
* `insertAll_insert`: a list that goes in is lost if one of its name follows.
* `insertAll_insertAll`: so lists that go in again change nothing.
* `execute_again`: an input in the session that it has left.
* `repeated_inputs_change_nothing`: an input in the environment that it has left, once and many times.
-/

namespace Listwise

/-! ## Lists that go in again -/

section Lists

variable {l l' : NamedList} {ls xs : List NamedList} {s : Store}

/-- A list takes the place of the one of its name. -/
theorem put_put_of_name_eq (h : l.name = l'.name) (xs : List NamedList) :
    Store.put l' (Store.put l xs) = Store.put l' xs := by
  induction xs with
  | nil => simp [Store.put, h]
  | cons x xs ih =>
    by_cases hx : x.name = l'.name
    · simp [Store.put, h, hx]
    · simp [Store.put, h, hx, ih]

/-- A list that takes the place of another one may do so before a list of another name goes in, or behind it.  If both
names were new, their order would tell. -/
theorem put_comm (hne : l.name ≠ l'.name) (hmem : l.name ∈ xs.map (·.name)) :
    Store.put l' (Store.put l xs) = Store.put l (Store.put l' xs) := by
  induction xs with
  | nil => simp at hmem
  | cons x xs ih =>
    by_cases hx : x.name = l.name
    · simp [Store.put, hx, hne]
    · have hmem : l.name ∈ xs.map (·.name) := (List.mem_cons.mp hmem).resolve_left (Ne.symm hx)
      by_cases hx' : x.name = l'.name
      · simp [Store.put, hx', hne.symm]
      · simp [Store.put, hx, hx', ih hmem]

/-- A list that is found under its name goes in without a change. -/
theorem put_eq_self (h : xs.find? (·.name = l.name) = some l) : Store.put l xs = xs := by
  induction xs with
  | nil => simp at h
  | cons x xs ih =>
    by_cases hx : x.name = l.name
    · have hl : x = l := by simpa [hx] using h
      simp [Store.put, hl]
    · have h : xs.find? (·.name = l.name) = some l := by simpa [hx] using h
      simp [Store.put, hx, ih h]

theorem insert_eq_self (h : s.get? l.name = some l) : s.insert l = s := by
  rw [Store.insert, put_eq_self h]

theorem mem_names_insert (s : Store) (l : NamedList) : l.name ∈ (s.insert l).names := by
  have h := names_put l s.lists
  rw [Store.names, Store.insert, h]
  split_ifs with hmem
  · exact hmem
  · simp

/-- A list that takes the place of another one is lost if a list of its name follows. -/
theorem insertAll_insert (hs : l.name ∈ s.names) (hls : l.name ∈ ls.map (·.name)) :
    (s.insert l).insertAll ls = s.insertAll ls := by
  induction ls generalizing s with
  | nil => simp at hls
  | cons l' ls ih =>
    show ((s.insert l).insert l').insertAll ls = (s.insert l').insertAll ls
    by_cases hname : l.name = l'.name
    · rw [Store.insert, Store.insert, put_put_of_name_eq hname]
      rfl
    · -- the list that is lost goes in behind `l'` instead, and comes nearer to the one that it is lost to
      have hcomm : (s.insert l).insert l' = (s.insert l').insert l :=
        congrArg Store.mk (put_comm hname hs)
      have hs' : l.name ∈ (s.insert l').names := (names_prefix_insertAll s [l']).subset hs
      rw [hcomm, ih hs' ((List.mem_cons.mp hls).resolve_left hname)]

/-- **Lists that go in again change nothing**, whatever names they share. -/
theorem insertAll_insertAll (s : Store) (ls : List NamedList) : (s.insertAll ls).insertAll ls = s.insertAll ls := by
  induction ls generalizing s with
  | nil => rfl
  | cons l ls ih =>
    show (((s.insert l).insertAll ls).insert l).insertAll ls = (s.insert l).insertAll ls
    by_cases hmem : l.name ∈ ls.map (·.name)
    · have hnames : l.name ∈ ((s.insert l).insertAll ls).names :=
        (names_prefix_insertAll (s.insert l) ls).subset (mem_names_insert s l)
      rw [insertAll_insert hnames hmem, ih]
    · -- no other list of the name has gone in since
      have hget : ((s.insert l).insertAll ls).get? l.name = some l := by
        rw [get?_insertAll_of_not_mem hmem, get?_insert_self]
      rw [insert_eq_self hget, ih]

end Lists

/-! ## Sessions -/

namespace Session

variable {s s' : Session} {input : String} {line : Nat} {texts : List String}

theorem perform_eq_ok {st : Statement} (h : s.perform st = .ok (s', texts)) :
    ∃ ls, st.lists s.store = .ok ls ∧ s' = { s with store := s.store.insertAll ls } := by
  have hlists := s.perform_lists st
  rw [h] at hlists
  cases hls : st.lists s.store with
  | error e =>
    rw [hls] at hlists
    cases hlists
  | ok ls =>
    rw [hls] at hlists
    exact ⟨ls, rfl, Except.ok.inj hlists⟩

/-- A statement that still defines the same lists behind itself does the same again. -/
theorem perform_again {st : Statement} (h : s.perform st = .ok (s', texts))
    (hlists : st.lists s'.store = st.lists s.store) : s'.perform st = .ok (s', texts) := by
  cases st with
  | definitions lists =>
    cases h
    rw [perform, insertAll_insertAll]
  | showAll =>
    cases h
    rfl
  | comprehension c =>
    obtain ⟨l, hl, h⟩ := bind_eq_ok.mp h
    cases h
    have hrun : c.run (s.store.insert l) = .ok l := by
      rw [Statement.lists, Statement.lists, hl] at hlists
      obtain ⟨l', hl', h⟩ := bind_eq_ok.mp hlists
      cases h
      exact hl'
    have hinsert : (s.store.insert l).insert l = s.store.insert l := insertAll_insertAll s.store [l]
    rw [perform, hrun]
    show Except.ok (({ s with store := (s.store.insert l).insert l } : Session), []) = _
    rw [hinsert]

/-- An input that defines no list that it refers to does the same again. -/
theorem execute_again (h : s.execute input line = .ok (s', texts))
    (hown : (definedBy input line).Disjoint (referredBy input line)) : s'.execute input line = .ok (s', texts) := by
  obtain ⟨r, hr, h⟩ := bind_eq_ok.mp h
  cases r with
  | none =>
    cases h
    rw [execute, hr]
    rfl
  | some w =>
    obtain ⟨st, hst, h⟩ := bind_eq_ok.mp h
    obtain ⟨ls, hls, rfl⟩ := perform_eq_ok h
    rw [definedBy, referredBy, hr] at hown
    have hlists : st.lists (s.store.insertAll ls) = st.lists s.store := by
      refine statement_lists_congr hst fun name hname => get?_insertAll_of_not_mem fun hmem => ?_
      rw [names_statement_lists hst hls] at hmem
      exact hown hmem hname
    rw [execute, hr]
    show (Statement.ofWritten s.limits w >>= perform _) = _
    rw [hst]
    exact perform_again h hlists

/-- An input that succeeds does so on whatever line. -/
theorem execute_eq_ok_of_line (h : s.execute input line = .ok (s', texts)) (next : Nat) :
    s.execute input next = .ok (s', texts) := by
  have hzero := s.execute_shift input 0 line
  have hnext := s.execute_shift input 0 next
  rw [Nat.zero_add] at hzero hnext
  obtain ⟨p, _, rfl, hat, hline⟩ | ⟨_, _, -, -, herror⟩ := hzero.ok_or_error
  · obtain ⟨_, _, rfl, hat', hthere⟩ | ⟨_, _, -, hat', -⟩ := hnext.ok_or_error
    · cases hat.symm.trans hat'
      rw [hthere, ← hline, h]
    · cases hat.symm.trans hat'
  · cases h.symm.trans herror

end Session

/-! ## Environments -/

namespace Environment

section Repeating

variable {env env' : Environment} {input : String} {line : Nat}

theorem executeLine_eq_ok (h : env.executeLine input line = (.ok (), env')) :
    ∃ texts, env.toSession.execute input line = .ok (env'.toSession, texts) ∧ env'.shown = env.shown ++ texts ∧
      env'.activity = .idle := by
  rw [executeLine_after] at h
  generalize env.toSession.execute input line = x at h
  cases x with
  | error e => cases h
  | ok p =>
    cases h
    exact ⟨p.2, rfl, rfl, rfl⟩

/-- An input that leaves the session as it is only shows its texts. -/
theorem executeLine_of_execute (hidle : env.activity = .idle) {texts : List String}
    (h : env.toSession.execute input line = .ok (env.toSession, texts)) :
    env.executeLine input line = (.ok (), { env with shown := env.shown ++ texts }) := by
  rw [executeLine_eq hidle, h]
  rfl

/-- It does so as often as it is repeated. -/
theorem executeEach_of_execute (hidle : env.activity = .idle) {texts : List String}
    (h : ∀ n, env.toSession.execute input n = .ok (env.toSession, texts)) (lines : List Nat) :
    env.executeEach (lines.map fun n => (input, n)) =
      (.ok (), { env with shown := env.shown ++ lines.flatMap fun _ => texts }) := by
  induction lines generalizing env with
  | nil => simp [executeEach]
  | cons n lines ih =>
    have hrest : ({ env with shown := env.shown ++ texts } : Environment).executeEach _ = _ := ih hidle h
    rw [List.map_cons, executeEach, executeLine_of_execute hidle (h n)]
    dsimp only
    rw [hrest, List.flatMap_cons, List.append_assoc]

/-- **Repeated inputs change nothing.**  An input that has succeeded, and does not refer to a list that it defines
itself, succeeds again in the environment that it has left, on whatever line.  The lists and their order stay as they
are, and what was shown the first time is shown again; and so it is as often as the input is repeated. -/
theorem repeated_inputs_change_nothing (h : env.executeLine input line = (.ok (), env'))
    (hown : (definedBy input line).Disjoint (referredBy input line)) :
    ∃ texts, env'.shown = env.shown ++ texts ∧
      (∀ next, env'.executeLine input next = (.ok (), { env' with shown := env'.shown ++ texts })) ∧
      ∀ lines : List Nat, env'.executeEach (lines.map fun n => (input, n)) =
        (.ok (), { env' with shown := env'.shown ++ lines.flatMap fun _ => texts }) := by
  obtain ⟨texts, hexecute, hshown, hidle⟩ := executeLine_eq_ok h
  have hagain : ∀ n, env'.toSession.execute input n = .ok (env'.toSession, texts) :=
    fun n => Session.execute_eq_ok_of_line (Session.execute_again hexecute hown) n
  exact ⟨texts, hshown, fun next => executeLine_of_execute hidle (hagain next), executeEach_of_execute hidle hagain⟩

/-- Clauses that define one name three times, between them a new name and one that is there; and a comprehension over
the list that they leave. -/
theorem repeated_inputs_change_nothing_two :
    let env : Environment := ⟨⟨.standard, ⟨[{ name := "B", elements := [.text "x"] }]⟩⟩, [], .idle⟩
    let clauses := "A = [1], C = [y], A = [], B = 1..2, A = [2, 3]"
    let products := "B = [a * 2 | a in A | a > 2]"
    let two : Decimal := ⟨false, 2, 0, by decide, by decide⟩
    let three : Decimal := ⟨false, 3, 0, by decide, by decide⟩
    let six : Decimal := ⟨false, 6, 0, by decide, by decide⟩
    let first : Environment := ⟨⟨.standard, ⟨[⟨"B", [.number 1, .number two], none⟩,
      ⟨"A", [.number two, .number three], none⟩, ⟨"C", [.text "y"], none⟩]⟩⟩, [], .idle⟩
    let second : Environment := ⟨⟨.standard, ⟨[⟨"B", [.number six], none⟩,
      ⟨"A", [.number two, .number three], none⟩, ⟨"C", [.text "y"], none⟩]⟩⟩, [], .idle⟩
    env.executeLine clauses 1 = (.ok (), first) ∧ (definedBy clauses 1).Disjoint (referredBy clauses 1) ∧
      first.executeLine clauses 2 = (.ok (), first) ∧
      first.executeLine products 3 = (.ok (), second) ∧ (definedBy products 3).Disjoint (referredBy products 3) ∧
      second.executeEach [(products, 4), (products, 5)] = (.ok (), second) := by
  intro env clauses products two three six first second
  have hfirst : env.executeLine clauses 1 = (.ok (), first) := by decide +kernel
  have hsecond : first.executeLine products 3 = (.ok (), second) := by decide +kernel
  have hclauses : (definedBy clauses 1).Disjoint (referredBy clauses 1) := by
    have hreferred : referredBy clauses 1 = [] := by decide +kernel
    rw [hreferred]
    exact List.disjoint_nil_right _
  have hproducts : (definedBy products 3).Disjoint (referredBy products 3) := by
    have hnames : definedBy products 3 = ["B"] ∧ referredBy products 3 = ["A"] := by decide +kernel
    rw [hnames.1, hnames.2]
    simp
  obtain ⟨texts, hshown, hnext, -⟩ := repeated_inputs_change_nothing hfirst hclauses
  obtain ⟨texts', hshown', -, hlines⟩ := repeated_inputs_change_nothing hsecond hproducts
  obtain rfl : texts = [] := (List.nil_append texts).symm.trans hshown.symm
  obtain rfl : texts' = [] := (List.nil_append texts').symm.trans hshown'.symm
  exact ⟨hfirst, hclauses, hnext 2, hsecond, hproducts, hlines [4, 5]⟩

end Repeating

end Environment

end Listwise

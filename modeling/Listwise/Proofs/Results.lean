import Listwise.Statement
import Mathlib.Data.List.Forall2

/-!
# Results that may be errors

* `bind_eq_ok`, `exists_of_mem_mapM`, `read_eq_ok`, `bindings_of_read`: what a result that is no error came from.
* `Related p q r x y`: `x` and `y` are errors that `q` relates, or values that `r` relates, unless `p` excuses the error
  of `x`.  Its rules are those of sequences: `Related.bind`, `Related.mapM`.
* `SameResult r x y`: the same error, or values that `r` relates.
-/

namespace Listwise

section Ok

variable {α β ε : Type}

theorem bind_eq_ok {x : Except ε α} {f : α → Except ε β} {b : β} :
    (x >>= f) = .ok b ↔ ∃ a, x = .ok a ∧ f a = .ok b := by
  cases x with
  | error e =>
    constructor
    · intro h
      cases h
    · rintro ⟨a, h, -⟩
      cases h
  | ok a =>
    constructor
    · intro h
      exact ⟨a, rfl, h⟩
    · rintro ⟨a', h, hb⟩
      cases h
      exact hb

/-- Each value of a sequence came from an item. -/
theorem exists_of_mem_mapM {f : α → Except ε β} {xs : List α} {ys : List β} (h : xs.mapM f = .ok ys) {y : β}
    (hy : y ∈ ys) : ∃ x ∈ xs, f x = .ok y := by
  induction xs generalizing ys with
  | nil =>
    cases h
    exact absurd hy List.not_mem_nil
  | cons x xs ih =>
    rw [List.mapM_cons] at h
    obtain ⟨z, hz, h⟩ := bind_eq_ok.mp h
    obtain ⟨zs, hzs, h⟩ := bind_eq_ok.mp h
    cases h
    rcases List.mem_cons.mp hy with rfl | hy
    · exact ⟨x, List.mem_cons_self, hz⟩
    · obtain ⟨x', hx', hy⟩ := ih hzs hy
      exact ⟨x', List.mem_cons_of_mem x hx', hy⟩

/-- What a comprehension has kept of the written one. -/
theorem read_eq_ok {limits : RangeLimits} {line : Nat} {w : Written.Comprehension} {c : Comprehension}
    (h : w.read limits line = .ok c) :
    c.result = w.result ∧ ∃ e, w.transform = some e ∧ e.mapLiterals readDecimal = .ok c.transform := by
  unfold Written.Comprehension.read at h
  split at h
  · cases h
  · next e he =>
    obtain ⟨bindings, -, h⟩ := bind_eq_ok.mp h
    obtain ⟨predicates, -, h⟩ := bind_eq_ok.mp h
    obtain ⟨transform, htransform, h⟩ := bind_eq_ok.mp h
    cases h
    exact ⟨rfl, e, he, htransform⟩

theorem bindings_of_read {limits : RangeLimits} {line : Nat} {w : Written.Comprehension} {c : Comprehension}
    (h : w.read limits line = .ok c) : w.bindings.mapM (Written.Binding.toList limits line) = .ok c.bindings := by
  unfold Written.Comprehension.read at h
  split at h
  · cases h
  · obtain ⟨bindings, hbindings, h⟩ := bind_eq_ok.mp h
    obtain ⟨predicates, -, h⟩ := bind_eq_ok.mp h
    obtain ⟨transform, -, h⟩ := bind_eq_ok.mp h
    cases h
    exact hbindings

end Ok

/-! ## Two results -/

/-- Results that go together: values that `values` relates, errors that `errors` relates, or an error that is excused
beside whatever there is on the other side. -/
inductive Related {α β ε ε' : Type} (excused : ε → Prop) (errors : ε → ε' → Prop) (values : α → β → Prop) :
    Except ε α → Except ε' β → Prop where
  | ok {a : α} {b : β} (h : values a b) : Related excused errors values (.ok a) (.ok b)
  | error {e : ε} {e' : ε'} (h : errors e e') : Related excused errors values (.error e) (.error e')
  | excused {e : ε} (h : excused e) (y : Except ε' β) : Related excused errors values (.error e) y

/-- The same error, or values that `r` relates. -/
abbrev SameResult {α β ε : Type} (r : α → β → Prop) : Except ε α → Except ε β → Prop :=
  Related (fun _ => False) Eq r

namespace Related

variable {α β γ δ ε ε' : Type} {p : ε → Prop} {q : ε → ε' → Prop} {r : α → β → Prop} {r' : γ → δ → Prop}

theorem imp {x : Except ε α} {y : Except ε' β} (h : Related p q r x y) {r' : α → β → Prop}
    (hr : ∀ a b, r a b → r' a b) : Related p q r' x y := by
  cases h with
  | ok h => exact .ok (hr _ _ h)
  | error h => exact .error h
  | excused h y => exact .excused h y

theorem bind {x : Except ε α} {y : Except ε' β} (h : Related p q r x y) {f : α → Except ε γ} {g : β → Except ε' δ}
    (hfg : ∀ a b, r a b → Related p q r' (f a) (g b)) : Related p q r' (x >>= f) (y >>= g) := by
  cases h with
  | ok h => exact hfg _ _ h
  | error h => exact .error h
  | excused h y => exact .excused h _

/-- `bind`, where the second value is made of the first. -/
theorem bind_eq {m : α → β} {x : Except ε α} {y : Except ε' β} (h : Related p q (fun a b => b = m a) x y)
    {f : α → Except ε γ} {g : β → Except ε' δ} (hfg : ∀ a, Related p q r' (f a) (g (m a))) :
    Related p q r' (x >>= f) (y >>= g) := by
  refine h.bind ?_
  rintro a _ rfl
  exact hfg a

theorem mapM {xs : List α} {ys : List β} (h : List.Forall₂ r xs ys) {f : α → Except ε γ} {g : β → Except ε' δ}
    (hfg : ∀ a b, r a b → Related p q r' (f a) (g b)) : Related p q (List.Forall₂ r') (xs.mapM f) (ys.mapM g) := by
  induction h with
  | nil => exact .ok .nil
  | cons hab _ ih =>
    rw [List.mapM_cons, List.mapM_cons]
    refine (hfg _ _ hab).bind fun c d hcd => ?_
    exact ih.bind fun cs ds hcds => .ok (.cons hcd hcds)

/-- `mapM` over the same items, where the second values are made of the first. -/
theorem mapM_map {m : β → γ} {f : α → Except ε β} {g : α → Except ε' γ} {as : List α}
    (h : ∀ a ∈ as, Related p q (fun b c => c = m b) (f a) (g a)) :
    Related p q (fun bs cs => cs = bs.map m) (as.mapM f) (as.mapM g) := by
  have hsame : List.Forall₂ (fun a b => a ∈ as ∧ a = b) as as := List.forall₂_same.mpr fun a ha => ⟨ha, rfl⟩
  have hvalues : Related p q (List.Forall₂ fun b c => c = m b) (as.mapM f) (as.mapM g) := by
    refine mapM hsame ?_
    rintro a _ ⟨ha, rfl⟩
    exact h a ha
  refine hvalues.imp fun bs cs hcs => ?_
  rw [← List.forall₂_eq_eq_eq, List.forall₂_map_right_iff]
  exact hcs.flip

/-- The same for values that are equal. -/
theorem mapM_self {f : α → Except ε β} {g : α → Except ε' β} {as : List α}
    (h : ∀ a ∈ as, Related p q (fun b c => c = b) (f a) (g a)) :
    Related p q (fun bs cs => cs = bs) (as.mapM f) (as.mapM g) := by
  have hmap := mapM_map (m := id) h
  simpa only [List.map_id] using hmap

/-- Where no error is excused, both are values or both are errors. -/
theorem ok_or_error {x : Except ε α} {y : Except ε' β} (h : Related (fun _ => False) q r x y) :
    (∃ a b, r a b ∧ x = .ok a ∧ y = .ok b) ∨ ∃ e e', q e e' ∧ x = .error e ∧ y = .error e' := by
  cases h with
  | ok h => exact .inl ⟨_, _, h, rfl, rfl⟩
  | error h => exact .inr ⟨_, _, h, rfl, rfl⟩
  | excused h y => exact h.elim

/-- What depends on nothing that changes. -/
theorem refl {q : ε → ε → Prop} (hq : ∀ e, q e e) (x : Except ε α) : Related p q (fun a b => b = a) x x := by
  cases x with
  | error e => exact .error (hq e)
  | ok a => exact .ok rfl

/-- One and the same computation goes before two that go together. -/
theorem bind_self {q : ε → ε → Prop} (hq : ∀ e, q e e) {x : Except ε α} {f : α → Except ε γ} {g : α → Except ε δ}
    (hfg : ∀ a, x = .ok a → Related p q r' (f a) (g a)) : Related p q r' (x >>= f) (x >>= g) := by
  cases x with
  | error e => exact .error (hq e)
  | ok a => exact hfg a rfl

end Related

end Listwise

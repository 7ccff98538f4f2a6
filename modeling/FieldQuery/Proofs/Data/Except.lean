import Mathlib.Data.List.Basic

/-!
# Results of steps that may fail

* `Except.bind_eq_ok_iff` — two steps succeed if the first does, and the second with its result;
* `Except.map_eq_ok_iff` — a step succeeds with what is made of its result;
* `Except.of_mapM`, `Except.mapM_map_eq_ok` — what is made of a list is made of its elements, and the
  other way round;
* `Except.cases_of_toOption`, `Except.toOption_mapM` — results that differ in their errors at most.
-/

namespace FieldQuery

theorem Except.bind_eq_ok_iff {ε α β : Type} {x : Except ε α} {f : α → Except ε β} {b : β} :
    (x >>= f) = .ok b ↔ ∃ a, x = .ok a ∧ f a = .ok b := by
  cases x <;> simp [bind, Except.bind]

theorem Except.map_eq_ok_iff {ε α β : Type} {f : α → β} {x : Except ε α} {b : β} :
    x.map f = .ok b ↔ ∃ a, x = .ok a ∧ f a = b := by
  cases x <;> simp [Except.map]

/-- What is made of a list has its length, and is made of its elements. -/
theorem Except.of_mapM {ε α β : Type} {f : α → Except ε β} {as : List α} {bs : List β}
    (h : as.mapM f = .ok bs) : bs.length = as.length ∧ ∀ b ∈ bs, ∃ a ∈ as, f a = .ok b := by
  induction as generalizing bs with
  | nil =>
    cases h
    exact ⟨rfl, fun b hb => nomatch hb⟩
  | cons a as ih =>
    rw [List.mapM_cons, Except.bind_eq_ok_iff] at h
    obtain ⟨b, hb, h⟩ := h
    obtain ⟨rest, hrest, h⟩ := Except.bind_eq_ok_iff.1 h
    cases h
    obtain ⟨hlength, hmem⟩ := ih hrest
    refine ⟨congrArg (· + 1) hlength, List.forall_mem_cons.2 ⟨⟨a, List.mem_cons_self, hb⟩, ?_⟩⟩
    intro b' hb'
    obtain ⟨a', ha', hf⟩ := hmem b' hb'
    exact ⟨a', List.mem_cons_of_mem _ ha', hf⟩

/-- What is made of every element by itself is made of the whole list. -/
theorem Except.mapM_map_eq_ok {ε α β : Type} {f : β → Except ε α} {g : α → β} {as : List α}
    (h : ∀ a ∈ as, f (g a) = .ok a) : (as.map g).mapM f = .ok as := by
  induction as with
  | nil => rfl
  | cons a as ih =>
    rw [List.map_cons, List.mapM_cons, h a List.mem_cons_self,
      ih fun b hb => h b (List.mem_cons_of_mem _ hb)]
    rfl

/-- Results that are the same but for what errors say. -/
theorem Except.cases_of_toOption {ε α : Type} {x y : Except ε α} (h : x.toOption = y.toOption) :
    (∃ a, x = .ok a ∧ y = .ok a) ∨ ∃ err err', x = .error err ∧ y = .error err' := by
  cases x <;> cases y <;> cases h
  · exact .inr ⟨_, _, rfl, rfl⟩
  · exact .inl ⟨_, rfl, rfl⟩

theorem Except.toOption_mapM {ε α β : Type} {f g : α → Except ε β}
    (h : ∀ a, (f a).toOption = (g a).toOption) (as : List α) :
    (as.mapM f).toOption = (as.mapM g).toOption := by
  induction as with
  | nil => rfl
  | cons a as ih =>
    rw [List.mapM_cons, List.mapM_cons]
    rcases Except.cases_of_toOption (h a) with ⟨b, hf, hg⟩ | ⟨err, err', hf, hg⟩
    · rw [hf, hg]
      rcases Except.cases_of_toOption ih with ⟨bs, hfs, hgs⟩ | ⟨err, err', hfs, hgs⟩
      · rw [hfs, hgs]
      · rw [hfs, hgs]
        rfl
    · rw [hf, hg]
      rfl

end FieldQuery

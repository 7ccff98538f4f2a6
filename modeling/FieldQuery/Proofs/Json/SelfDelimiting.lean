import FieldQuery.Proofs.Json.Injective

/-!
# Where the text of an object ends

The text of an object tells where it ends: no other one begins with it.  So objects can be written one
after the other, with nothing between them, and are still told apart.  No text has a control character in
it, which leaves those free as marks.

* `IsPlainChar` — a character that is no control character.

Principal results: `isPlainChar_write` — a text consists of such characters; `eq_of_flatMap_write` —
sequences of objects that are written alike are the same.
-/

namespace FieldQuery.Json

open Text

/-! ## Characters -/

/-- A character that is no control character. -/
def IsPlainChar (c : Char) : Prop := 0x20 ≤ c.toNat

instance : DecidablePred IsPlainChar := fun c => inferInstanceAs (Decidable (0x20 ≤ c.toNat))

/-- Characters of which each is checked.  A decision for all members would try all characters. -/
theorem isPlainChar_of_all {cs : List Char} (h : cs.all (fun c => decide (IsPlainChar c)) = true) :
    ∀ c ∈ cs, IsPlainChar c :=
  fun c hc => of_decide_eq_true (List.all_eq_true.1 h c hc)

theorem IsNumeral.isPlainChar {c : Char} (h : IsNumeral c) : IsPlainChar c := by
  rcases h with h | rfl | rfl | rfl | rfl
  · unfold isDigit at h
    have hlow : '0'.toNat ≤ c.toNat := by
      simp only [Bool.and_eq_true, decide_eq_true_eq] at h
      exact h.1
    exact Nat.le_trans (by decide) hlow
  all_goals decide

theorem isPlainChar_hexDigit : ∀ n < 16, IsPlainChar (hexDigit n) := by decide

theorem isPlainChar_escapeChar (c : Char) : ∀ d ∈ escapeChar c, IsPlainChar d := by
  unfold escapeChar
  split
  · exact isPlainChar_of_all (by decide)
  split
  · exact isPlainChar_of_all (by decide)
  split
  · rename_i hprint
    intro d hd
    rw [List.mem_singleton.1 hd]
    exact hprint
  rename_i hcontrol
  repeat' split
  all_goals first | exact isPlainChar_of_all (by decide) | skip
  have hhigh := isPlainChar_hexDigit (c.toNat / 16) (by omega)
  have hlow := isPlainChar_hexDigit (c.toNat % 16) (by omega)
  have hmark : ∀ d ∈ ['\\', 'u', '0', '0'], IsPlainChar d := isPlainChar_of_all (by decide)
  have hdigits : ∀ d ∈ [hexDigit (c.toNat / 16), hexDigit (c.toNat % 16)], IsPlainChar d := by
    rw [List.forall_mem_cons, List.forall_mem_singleton]
    exact ⟨hhigh, hlow⟩
  exact List.forall_mem_append.2 ⟨hmark, hdigits⟩

theorem isPlainChar_quote (s : String) : ∀ c ∈ quote s, IsPlainChar c := by
  unfold quote
  rw [List.forall_mem_append, List.forall_mem_cons]
  refine ⟨⟨by decide, fun c hc => ?_⟩, isPlainChar_of_all (by decide)⟩
  obtain ⟨d, -, hd⟩ := List.mem_flatMap.1 hc
  exact isPlainChar_escapeChar d c hd

mutual

/-- **No text has a control character in it.** -/
theorem isPlainChar_write (j : Json) : ∀ c ∈ write j, IsPlainChar c := by
  match j with
  | .null => exact isPlainChar_of_all (by decide)
  | .bool true => exact isPlainChar_of_all (by decide)
  | .bool false => exact isPlainChar_of_all (by decide)
  | .int n =>
    rw [write]
    exact fun c hc => (isNumeral_intNumeral n c hc).isPlainChar
  | .float x =>
    rw [write]
    exact fun c hc => (isNumeral_printJson x c hc).isPlainChar
  | .text s =>
    rw [write]
    exact isPlainChar_quote s
  | .array items =>
    rw [write, List.forall_mem_append, List.forall_mem_cons]
    exact ⟨⟨by decide, isPlainChar_writeItems items⟩, isPlainChar_of_all (by decide)⟩
  | .object fields =>
    rw [write, List.forall_mem_append, List.forall_mem_cons]
    exact ⟨⟨by decide, isPlainChar_writeFields fields⟩, isPlainChar_of_all (by decide)⟩

theorem isPlainChar_writeItems (items : List Json) : ∀ c ∈ writeItems items, IsPlainChar c := by
  match items with
  | [] => exact fun _ hc => nomatch hc
  | [j] =>
    rw [writeItems]
    exact isPlainChar_write j
  | j :: k :: rest =>
    rw [writeItems, List.forall_mem_append, List.forall_mem_cons]
    exact ⟨isPlainChar_write j, by decide, isPlainChar_writeItems (k :: rest)⟩

theorem isPlainChar_writeFields (fields : List (String × Json)) :
    ∀ c ∈ writeFields fields, IsPlainChar c := by
  match fields with
  | [] => exact fun _ hc => nomatch hc
  | [(k, j)] =>
    rw [writeFields, List.forall_mem_append, List.forall_mem_cons]
    exact ⟨isPlainChar_quote k, by decide, isPlainChar_write j⟩
  | (k, j) :: f :: rest =>
    rw [writeFields, List.append_assoc, List.forall_mem_append, List.cons_append, List.forall_mem_cons,
      List.forall_mem_append, List.forall_mem_cons]
    exact ⟨isPlainChar_quote k, by decide, isPlainChar_write j, by decide,
      isPlainChar_writeFields (f :: rest)⟩

end

/-! ## Objects one after the other -/

theorem write_object (fields : List (String × Json)) :
    ∃ cs, write (.object fields) = '\x7b' :: cs := by
  rw [write]
  exact ⟨_, rfl⟩

/-- The text of a value does not go on with another object. -/
theorem write_ne_append {j k : Json} (hj : IsFinite j) (hk : IsFinite k) (cs : List Char) :
    write k ≠ write j ++ '\x7b' :: cs := by
  intro heq
  obtain ⟨r, hrun, hr⟩ := run_write j hj.readable (.value []) [] (expects_value [])
  obtain ⟨r', hrun', -⟩ := run_write k hk.readable (.value []) [] (expects_value [])
  -- An object cannot begin where a value is complete.
  have hstuck : r.run exactWord ('\x7b' :: cs) = none := by
    rw [Reader.run, hr.step (by decide)]
    rfl
  rw [heq, Reader.run_append, hrun, Option.bind_some, hstuck] at hrun'
  cases hrun'

/-- Objects that are followed by other objects, if by anything, end together. -/
theorem eq_nil_of_write_append {j k : Json} (hj : IsFinite j) (hk : IsFinite k) {t rest : List Char}
    {js : List Json} (hjs : ∀ i ∈ js, i.isObject = true) (hwrite : write k = write j ++ t)
    (hrest : js.flatMap write = t ++ rest) : t = [] := by
  cases t with
  | nil => rfl
  | cons c cs =>
    cases js with
    | nil => cases hrest
    | cons i is =>
      cases i with
      | object fields =>
        obtain ⟨ds, hds⟩ := write_object fields
        rw [List.flatMap_cons, hds] at hrest
        obtain rfl : '\x7b' = c := (List.cons.inj hrest).1
        exact absurd hwrite (write_ne_append hj hk cs)
      | _ => cases hjs _ List.mem_cons_self

/-- **Sequences of objects that are written alike are the same.** -/
theorem eq_of_flatMap_write : ∀ {js ks : List Json},
    (∀ j ∈ js, IsFinite j ∧ j.isObject = true) → (∀ k ∈ ks, IsFinite k ∧ k.isObject = true) →
    js.flatMap write = ks.flatMap write → js = ks
  | [], [], _, _, _ => rfl
  | [], k :: ks, _, hks, h => by
    cases k with
    | object fields =>
      obtain ⟨cs, hcs⟩ := write_object fields
      rw [List.flatMap_cons, hcs] at h
      cases h
    | _ => cases (hks _ List.mem_cons_self).2
  | j :: js, [], hjs, _, h => by
    cases j with
    | object fields =>
      obtain ⟨cs, hcs⟩ := write_object fields
      rw [List.flatMap_cons, hcs] at h
      cases h
    | _ => cases (hjs _ List.mem_cons_self).2
  | j :: js, k :: ks, hjs, hks, h => by
    have hj := (hjs j List.mem_cons_self).1
    have hk := (hks k List.mem_cons_self).1
    have hjs' := fun i hi => hjs i (List.mem_cons_of_mem j hi)
    have hks' := fun i hi => hks i (List.mem_cons_of_mem k hi)
    -- One of the two first texts begins with the other one; what is left of it is empty.
    have htexts : write j = write k := by
      rw [List.flatMap_cons, List.flatMap_cons] at h
      rcases List.append_eq_append_iff.1 h with ⟨t, hwrite, hrest⟩ | ⟨t, hwrite, hrest⟩
      · rw [hwrite, eq_nil_of_write_append hj hk (fun i hi => (hjs' i hi).2) hwrite hrest,
          List.append_nil]
      · rw [hwrite, eq_nil_of_write_append hk hj (fun i hi => (hks' i hi).2) hwrite hrest,
          List.append_nil]
    have hfirst : j = k := compact_injective hj hk (congrArg String.ofList htexts)
    rw [List.flatMap_cons, List.flatMap_cons, htexts] at h
    rw [hfirst, eq_of_flatMap_write hjs' hks' (List.append_cancel_left h)]

end FieldQuery.Json

import FieldQuery.Proofs.Data.Except
import FieldQuery.Request.Clause

/-!
# When a parameter comes to a clause

The checks of a parameter one after the other: blocked names, the definition, the expression, the
operators of the type and of the field, the number of values, and the values.

* `Value.HasType`, `Operand.MadeOf` — the values of a field's type, and operands that have been made of
  what is written;
* `FilterSettings.hasType_of_coerce?`, `FilterSettings.madeOf_operand` — what is read is of its type, and
  made of what is written;
* `FilterSettings.clause_of_read`, `FilterSettings.clauseOf_of_operand` — what is left to check once a
  part has been found right.

Principal result: `FilterSettings.clause_eq_ok_iff` — the clauses of a parameter, from every check.
-/

namespace FieldQuery

/-- The values of a type; an enumeration has those that are listed. -/
inductive Value.HasType (listed : List String) : FieldType → Value → Prop
  | string (word : String) : HasType listed .string (.text word)
  | text (word : String) : HasType listed .text (.text word)
  | integer (n : Int64) : HasType listed .integer (.int n)
  | decimal {x : Binary64} (hfinite : x.isFinite = true) : HasType listed .decimal (.decimal x)
  | boolean (b : Bool) : HasType listed .boolean (.bool b)
  | datetime (t : Instant) : HasType listed .datetime (.instant t)
  | enumeration {word : String} (hlisted : word ∈ listed) : HasType listed .enumeration (.text word)

/-- An operand that has been made of a written one: a pattern stands as it is, all else has been read. -/
inductive Operand.MadeOf (o : Operator) (typed : Value → Prop) : RawOperand → Operand → Prop
  | none : MadeOf o typed .none .none
  | pattern {word : String} (ho : o.isPattern = true) :
      MadeOf o typed (.single word) (.single (.text word))
  | single {word : String} {v : Value} (ho : o.isPattern = false) (hv : typed v) :
      MadeOf o typed (.single word) (.single v)
  | list {words : List String} {vs : List Value} (hlength : vs.length = words.length)
      (hvs : ∀ v ∈ vs, typed v) : MadeOf o typed (.list words) (.list vs)
  | range {low high : String} {v w : Value} (hlow : typed v) (hhigh : typed w) :
      MadeOf o typed (.range low high) (.range v w)

namespace FilterSettings

variable {s : FilterSettings} {c : Catalog} {key raw : String} {d : Definition} {e : Expression}

/-! ## Values -/

/-- **What is read as a value of a type is one.** -/
theorem hasType_of_coerce? {t : FieldType} {enumValues : Option (List String)} {v : Value}
    (h : s.coerce? t raw enumValues = some v) : Value.HasType (enumValues.getD []) t v := by
  unfold coerce? at h
  cases t with
  | string =>
    cases h
    exact .string raw
  | text =>
    cases h
    exact .text raw
  | integer =>
    obtain ⟨n, -, rfl⟩ := Option.map_eq_some_iff.1 h
    exact .integer n
  | decimal =>
    obtain ⟨x, hx, rfl⟩ := Option.map_eq_some_iff.1 h
    exact .decimal (Option.filter_eq_some_iff.1 hx).2
  | boolean =>
    obtain ⟨b, -, rfl⟩ := Option.map_eq_some_iff.1 h
    exact .boolean b
  | datetime =>
    obtain ⟨t, -, rfl⟩ := Option.map_eq_some_iff.1 h
    exact .datetime t
  | enumeration =>
    dsimp only at h
    split at h
    · rename_i hlisted
      cases h
      exact .enumeration (List.contains_iff_mem.1 hlisted)
    · cases h

theorem hasType_of_coerce {field : String} {t : FieldType} {enumValues : Option (List String)}
    {v : Value} (h : s.coerce field t raw enumValues = .ok v) :
    Value.HasType (enumValues.getD []) t v := by
  unfold coerce at h
  split at h
  · rename_i hread
    cases h
    exact hasType_of_coerce? hread
  · cases h

/-- **The operand of an expression is made of the one that is written, with values of the type.** -/
theorem madeOf_operand {operand : Operand} (h : s.operand d e = .ok operand) :
    operand.MadeOf e.operator (Value.HasType (d.enumValues.getD []) d.fieldType) e.operand := by
  unfold FilterSettings.operand at h
  dsimp only at h
  split at h
  · rename_i hwritten
    cases h
    rw [hwritten]
    exact .none
  · rename_i word hwritten
    rw [hwritten]
    split at h
    · rename_i hpattern
      cases h
      exact .pattern hpattern
    · rename_i hpattern
      cases hvalue : s.coerce d.name d.fieldType word d.enumValues with
      | error err =>
        rw [hvalue] at h
        cases h
      | ok v =>
        rw [hvalue] at h
        cases h
        exact .single (Bool.not_eq_true _ ▸ hpattern) (hasType_of_coerce hvalue)
  · rename_i words hwritten
    rw [hwritten]
    cases hvalues : words.mapM fun word => s.coerce d.name d.fieldType word d.enumValues with
    | error err =>
      rw [hvalues] at h
      cases h
    | ok vs =>
      rw [hvalues] at h
      cases h
      obtain ⟨hlength, hmade⟩ := Except.of_mapM hvalues
      refine .list hlength fun v hv => ?_
      obtain ⟨word, -, hword⟩ := hmade v hv
      exact hasType_of_coerce hword
  · rename_i low high hwritten
    obtain ⟨v, hv, h⟩ := Except.bind_eq_ok_iff.1 h
    obtain ⟨w, hw, h⟩ := Except.bind_eq_ok_iff.1 h
    cases h
    rw [hwritten]
    exact .range (hasType_of_coerce hv) (hasType_of_coerce hw)

/-! ## Clauses -/

/-- A field that is not blocked is asked for the expression that has been read. -/
theorem clause_of_read (hkey : s.isBlocked key = false) (hname : s.isBlocked (c.resolve key) = false)
    (hd : c.get? (c.resolve key) = some d) (he : Expression.read raw = .ok e) :
    s.clause c key raw = s.clauseOf (c.resolve key) raw d e := by
  unfold clause
  simp only [hkey, hname, hd, he]
  rfl

/-- The clause of an operand that has been read, if the field allows its operator. -/
theorem clauseOf_of_operand {name : String} {operand : Operand}
    (hadmits : d.fieldType.admits e.operator = true)
    (hcount : e.operator = .isIn → e.operand.length ≤ s.maxInValues)
    (hoperand : s.operand d e = .ok operand) :
    s.clauseOf name raw d e =
      if d.allows e.operator then
        .ok { field := name, operator := e.operator, operand := operand, fieldType := d.fieldType,
              isVirtual := d.isVirtual, raw := raw, indexFriendly := indexFriendly e }
      else .error (.operatorNotAllowed name e.operator) := by
  have hmost : ¬ (e.operator = .isIn ∧ s.maxInValues < e.operand.length) := fun h => by
    have := hcount h.1
    omega
  unfold clauseOf
  simp only [FieldType.mismatch?, hadmits, hoperand, if_neg hmost, if_true]
  cases d.allows e.operator <;> rfl

/-- **What a parameter has to be for a clause, and the clause that it is then.** -/
theorem clause_eq_ok_iff {cl : Clause} :
    s.clause c key raw = .ok cl ↔
      (s.isBlocked key = false ∧ s.isBlocked (c.resolve key) = false) ∧
      ∃ d e operand, (c.get? (c.resolve key) = some d ∧ Expression.read raw = .ok e) ∧
        (d.fieldType.admits e.operator = true ∧ d.allows e.operator = true) ∧
        (e.operator = .isIn → e.operand.length ≤ s.maxInValues) ∧ s.operand d e = .ok operand ∧
        cl = { field := c.resolve key, operator := e.operator, operand := operand,
               fieldType := d.fieldType, isVirtual := d.isVirtual, raw := raw,
               indexFriendly := indexFriendly e } := by
  constructor
  · intro h
    unfold clause at h
    dsimp only at h
    split at h
    · cases h
    rename_i hblocked
    split at h
    · cases h
    rename_i d hd
    split at h
    · cases h
    rename_i e he
    unfold clauseOf at h
    split at h
    · cases h
    rename_i hmismatch
    split at h
    · cases h
    rename_i hallows
    split at h
    · cases h
    rename_i hcount
    split at h
    · cases h
    rename_i operand hoperand
    cases h
    have hadmits : d.fieldType.admits e.operator = true := by
      simpa [FieldType.mismatch?] using hmismatch
    refine ⟨by simpa using hblocked, d, e, operand, ⟨hd, he⟩, ⟨hadmits, by simpa using hallows⟩,
      fun hin => ?_, hoperand, rfl⟩
    simp only [hin, true_and] at hcount
    omega
  · rintro ⟨⟨hkey, hname⟩, d, e, operand, ⟨hd, he⟩, ⟨hadmits, hallows⟩, hcount, hoperand, rfl⟩
    rw [clause_of_read hkey hname hd he, clauseOf_of_operand hadmits hcount hoperand, if_pos hallows]

end FilterSettings

end FieldQuery

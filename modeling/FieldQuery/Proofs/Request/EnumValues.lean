import FieldQuery.Proofs.Request.Clause
import FieldQuery.Proofs.Request.Expression

/-!
# The enumeration values that a filter can ask for

The values of an enumeration may be any texts, but a filter is an expression before it is a value, and
expressions have no way to take a character out of its meaning. So a value can be asked for exactly if
its text is read as a value and nothing else.

Principal result: `FilterSettings.clause_enumValue`; a value that no filter asks for is in
`FilterSettings.clause_enumValue_listed`.
-/

namespace FieldQuery

open Text

namespace Expression

/-- What is read as a value to be equal to is read so as it is. -/
theorem plain_of_read {raw : String} {x : RawOperand} (h : read raw = .ok ⟨.eq, x⟩) :
    ∃ v, Plain v ∧ x = .single (String.ofList v) := by
  cases form_of_read h with
  | signed hv hsigned => cases hsigned
  | eq hv => exact ⟨_, hv, rfl⟩

end Expression

namespace FilterSettings

open Expression

variable {s : FilterSettings} {c : Catalog} {key : String} {d : Definition} {v : String}

/-- A value without blanks at its ends is taken as it is, if it is listed. -/
theorem coerce_enumValue {field : String} {enumValues : Option (List String)}
    (htrim : trim v.toList = v.toList) :
    s.coerce field .enumeration v enumValues =
      if v ∈ enumValues.getD [] then .ok (.text v)
      else .error (.malformedValue field v (expectation .enumeration enumValues)) := by
  unfold coerce coerce?
  simp only [htrim, String.ofList_toList, List.contains_eq_mem, decide_eq_true_eq]
  by_cases h : v ∈ enumValues.getD [] <;> simp [h]

/-- **A value of an enumeration can be asked for exactly if its text is plain**, and then by the text
itself. -/
theorem clause_enumValue (hd : c.get? (c.resolve key) = some d) (htype : d.fieldType = .enumeration)
    (hallows : d.allows .eq = true) (hv : v ∈ d.enumValues.getD []) :
    (Plain v.toList →
      ({} : FilterSettings).clause c key v =
        .ok { field := c.resolve key, operator := .eq, operand := .single (.text v),
              fieldType := .enumeration, isVirtual := d.isVirtual, raw := v,
              indexFriendly := true }) ∧
      ∀ raw cl, ({} : FilterSettings).clause c key raw = .ok cl → cl.operator = .eq →
        cl.operand = .single (.text v) → Plain v.toList := by
  constructor
  · intro hplain
    have hread : read v = .ok ⟨.eq, .single v⟩ := by
      have htext := (read_ofList hplain.trim_eq).trans (readTrimmed_plain hplain)
      rwa [String.ofList_toList] at htext
    have hoperand : ({} : FilterSettings).operand d ⟨.eq, .single v⟩ = .ok (.single (.text v)) := by
      simp only [operand, htype, coerce_enumValue hplain.trim_eq, if_pos hv]
      rfl
    rw [← htype]
    exact clause_eq_ok_iff.2 ⟨⟨rfl, rfl⟩, d, ⟨.eq, .single v⟩, _, ⟨hd, hread⟩,
      ⟨by rw [htype]; rfl, hallows⟩, (fun hin => nomatch hin), hoperand, rfl⟩
  · intro raw cl hclause hoperator hvalue
    obtain ⟨-, d', ⟨o, x⟩, operand, ⟨hd', hread⟩, -, -, hoperand, rfl⟩ := clause_eq_ok_iff.1 hclause
    obtain rfl := Option.some.inj (hd.symm.trans hd')
    dsimp only at hoperator hvalue
    subst hoperator hvalue
    obtain ⟨w, hw, rfl⟩ := plain_of_read hread
    have htrim : trim (String.ofList w).toList = (String.ofList w).toList := by
      rw [String.toList_ofList, hw.trim_eq]
    have hpattern : Operator.eq.isPattern = false := rfl
    simp only [FilterSettings.operand, htype, hpattern, coerce_enumValue htrim, Bool.false_eq_true,
      if_false] at hoperand
    split at hoperand
    · cases hoperand
      rwa [String.toList_ofList]
    · cases hoperand

section States

/-- States, of which one is a list of others when it is read, and one the word for having no value. -/
def stateColumn : Field where
  name := "state"
  fieldType := .enumeration
  operators := FieldType.enumeration.operators
  enumValues := some ["open", "closed", "open,closed", "Null"]

/-- Nothing but states. -/
def states : Catalog := (({} : Catalog).enter (.field stateColumn)).2

theorem clause_enumValue_open :
    ({} : FilterSettings).clause states "state" "open" =
        .ok { field := "state", operator := .eq, operand := .single (.text "open"),
              fieldType := .enumeration, isVirtual := false, raw := "open", indexFriendly := true } ∧
      ∀ raw cl, ({} : FilterSettings).clause states "state" raw = .ok cl → cl.operator = .eq →
        cl.operand ≠ .single (.text "Null") := by
  have hd : states.get? (states.resolve "state") = some (.persisted stateColumn) := rfl
  have hopen := clause_enumValue (v := "open") hd rfl rfl (by decide)
  have hnull := clause_enumValue (v := "Null") hd rfl rfl (by decide)
  refine ⟨hopen.1 (by decide), fun raw cl hcl ho hvalue => ?_⟩
  exact absurd (hnull.2 raw cl hcl ho hvalue) (by decide)

/-- **A field may list a value that no filter asks for.** -/
theorem clause_enumValue_listed :
    FieldDraft.define { name := "state", fieldType := .enumeration,
                        enumValues := some ["open", "closed", "open,closed", "Null"] } =
        .ok stateColumn ∧
      states.get? (states.resolve "state") = some (.persisted stateColumn) ∧
      ¬ ∀ v ∈ stateColumn.enumValues.getD [],
        ∃ cl, ({} : FilterSettings).clause states "state" v = .ok cl ∧ cl.operator = .eq ∧
          cl.operand = .single (.text v) := by
  refine ⟨rfl, rfl, fun h => ?_⟩
  obtain ⟨cl, hcl, hoperator, -⟩ := h "open,closed" (by decide)
  have hlist : (({} : FilterSettings).clause states "state" "open,closed").toOption.map
      (·.operator) = some .isIn := by
    decide +kernel
  rw [hcl] at hlist
  exact absurd (hoperator.symm.trans (Option.some.inj hlist)) (by decide)

end States

end FilterSettings

end FieldQuery

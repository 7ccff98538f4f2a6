import FieldQuery.Proofs.Data.Except
import FieldQuery.Proofs.Json.RoundTrip
import FieldQuery.Proofs.Request.Clause
import FieldQuery.Proofs.Request.Expression
import FieldQuery.Proofs.Time.ReadBack

/-!
# Printed values are read back as clauses

A number, a truth value or an instant of a year of four digits is printed without any character that
an expression is read by, and the reader of its type reads it back. So an expression that has been
written with such values comes to a clause with the operator and the values themselves.

* `Solid` — a text that is read as a value wherever an expression has one; `IsInert` — the characters
  of such texts;
* `Operand.Suits` — the operands that an operator takes; `Operand.written` — what is written for one;
* `Printable` — the values of a type that are read back, by `coerce?_displayText`.

Principal result: `FilterSettings.clause_printed`.
-/

namespace FieldQuery

open Text

namespace Expression

/-! ## Characters without a meaning -/

/-- A text that is read as a value, and that no sign in front of it runs on into. -/
structure Solid (v : List Char) : Prop extends Plain v where
  noSign : v.head? ≠ some '='

/-- The characters that expressions are not read by. -/
def isInert (c : Char) : Bool :=
  !(isBlank c || ['|', ',', wildcard, '<', '>', '=', '!', 'n', 'u', 'l'].contains (asciiLowerChar c))

theorem isInert_of_isDigit {c : Char} (h : isDigit c = true) : isInert c = true := by
  have hdigits : ∀ n, n < 10 → isInert (Char.ofNat (48 + n)) = true := by decide
  have hbounds := toNat_of_isDigit h
  have hc := hdigits (c.toNat - 48) (by omega)
  rwa [Nat.add_sub_cancel' hbounds.1, Char.ofNat_toNat] at hc

theorem all_isInert_of_isDigit {cs : List Char} (h : cs.all isDigit = true) :
    cs.all isInert = true :=
  List.all_eq_true.2 fun c hc => isInert_of_isDigit (List.all_eq_true.1 h c hc)

theorem isInert_of_isNumeral {c : Char} (h : Json.IsNumeral c) : isInert c = true := by
  rcases h with h | rfl | rfl | rfl | rfl
  · exact isInert_of_isDigit h
  all_goals decide

theorem solid_of_isInert {v : List Char} (hne : v ≠ []) (h : v.all isInert = true) :
    Solid v := by
  rw [List.all_eq_true] at h
  have hnot : ∀ c, isInert c = false → c ∉ v := by
    intro c hc hmem
    rw [h c hmem] at hc
    cases hc
  have hhead : ∀ c, isInert c = false → v.head? ≠ some c := fun c hc hv =>
    hnot c hc (List.mem_of_head? hv)
  obtain ⟨c, rest, rfl⟩ := List.exists_cons_of_ne_nil hne
  have hc := h c List.mem_cons_self
  simp only [isInert, Bool.not_eq_true', Bool.or_eq_false_iff, List.contains_eq_mem,
    decide_eq_false_iff_not] at hc
  exact {
    ne_nil := hne
    trim_eq := by
      refine trim_of_forall fun d hd => ?_
      have := h d hd
      simp only [isInert, Bool.not_eq_true', Bool.or_eq_false_iff] at this
      exact this.1
    notNull := by
      refine not_isNullWord List.mem_cons_self fun hword => hc.2 ?_
      simp only [List.mem_cons, List.not_mem_nil, or_false] at hword ⊢
      tauto
    unsigned := by
      refine comparison?_eq_none_iff.2 ⟨hhead '>' (by decide), hhead '<' (by decide), ?_⟩
      rintro ⟨tail, htail⟩
      exact hnot '!' (by decide) (htail ▸ List.mem_cons_self)
    noBar := hnot '|' (by decide)
    noComma := hnot ',' (by decide)
    noWildcard := hnot wildcard (by decide)
    noSign := hhead '=' (by decide) }

end Expression

/-! ## Operands -/

namespace Operand

/-- The operands that an operator takes: no value, one value, a list of two values or more, or a
range. Patterns are no values of a type. -/
inductive Suits (holds : Value → Prop) (most : Nat) : Operator → Operand → Prop
  | null : Suits holds most .null .none
  | notNull : Suits holds most .notNull .none
  | single {o : Operator} {v : Value} (ho : o ∈ [.eq, .ne, .gt, .gte, .lt, .lte]) (hv : holds v) :
      Suits holds most o (.single v)
  | list {vs : List Value} (hleast : 2 ≤ vs.length) (hmost : vs.length ≤ most)
      (hvs : ∀ v ∈ vs, holds v) : Suits holds most .isIn (.list vs)
  | range {low high : Value} (hlow : holds low) (hhigh : holds high) :
      Suits holds most .between (.range low high)

/-- An operand with its values printed. -/
def written : Operand → RawOperand
  | .none => .none
  | .single v => .single v.displayText
  | .list vs => .list (vs.map Value.displayText)
  | .range low high => .range low.displayText high.displayText

end Operand

namespace Expression

/-- **An operator with printed values is read back.** -/
theorem read_render_written {most : Nat} {o : Operator} {operand : Operand}
    (h : operand.Suits (fun v => Solid v.display) most o) :
    read (render ⟨o, operand.written⟩) = .ok ⟨o, operand.written⟩ := by
  have hitem : ∀ v : Value, Solid v.display → Item v.display := fun v hv =>
    ⟨hv.toVisible, hv.noBar⟩
  cases h with
  | null => rfl
  | notNull => rfl
  | @single o v ho hv =>
    have hsigned : Signed v.display o →
        read (render ⟨o, .single v.displayText⟩) = .ok ⟨o, .single v.displayText⟩ := fun hsigned =>
      (read_render_signed hv.toVisible hsigned).2 fun hruns => hv.noSign hruns.2
    simp only [List.mem_cons, List.not_mem_nil, or_false] at ho
    rcases ho with rfl | rfl | rfl | rfl | rfl | rfl
    · exact (read_ofList hv.trim_eq).trans (readTrimmed_plain hv.toPlain)
    · exact hsigned (.ne hv.noWildcard)
    · exact hsigned .gt
    · exact hsigned .gte
    · exact hsigned .lt
    · exact hsigned .lte
  | @list vs hleast hmost hvs =>
    match vs, hleast with
    | v :: w :: ws, _ =>
      have hitems : ∀ p ∈ (v :: w :: ws).map Value.display, Item p ∧ ',' ∉ p := by
        intro p hp
        obtain ⟨u, hu, rfl⟩ := List.mem_map.1 hp
        exact ⟨hitem u (hvs u hu), (hvs u hu).noComma⟩
      have hfirst := (hvs v List.mem_cons_self).unsigned
      have hread := (read_render_list hitems).2 ⟨by simp, hfirst⟩
      rw [← List.map_cons, List.map_map] at hread
      exact hread
  | @range low high hlow hhigh =>
    exact read_render_range (hitem low hlow) (hitem high hhigh) hlow.unsigned

end Expression

/-! ## Values -/

/-- The values of a type that are read back from their text: of the instants those in a year of four
digits, of the decimals those that are finite. -/
inductive Printable : FieldType → Value → Prop
  | int (n : Int64) : Printable .integer (.int n)
  | decimal {x : Binary64} (h : x.isFinite = true) : Printable .decimal (.decimal x)
  | bool (b : Bool) : Printable .boolean (.bool b)
  | instant {t : Instant} (h : 0 ≤ t.date.year ∧ t.date.year ≤ 9999) :
      Printable .datetime (.instant t)

namespace Text

theorem readInt64_intNumeral (n : Int64) : readInt64 (intNumeral n.toInt) = some n := by
  unfold intNumeral
  split
  · rename_i hneg
    unfold readInt64
    simp only [readDigits_natNumeral]
    show int64? (-((n.toInt.natAbs : Nat) : Int)) = some n
    rw [show -((n.toInt.natAbs : Nat) : Int) = n.toInt by omega, int64?_toInt]
  · rename_i hpos
    have hread := readDigits_natNumeral n.toInt.natAbs
    have hdigits := all_isDigit_natNumeral n.toInt.natAbs
    have hint : Int.ofNat n.toInt.natAbs = n.toInt := by
      show ((n.toInt.natAbs : Nat) : Int) = _
      omega
    unfold readInt64
    split
    · rename_i heq
      rw [heq] at hdigits
      cases hdigits
    · rename_i heq
      rw [heq] at hdigits
      cases hdigits
    · simp only [hread, Option.map_some, Option.bind_some, hint, int64?_toInt]

end Text

namespace Instant

open Expression

theorem all_isInert_padded (width n : Nat) : (padded width n).all isInert = true :=
  all_isInert_of_isDigit (all_isDigit_padded width n)

theorem all_isInert_yearText (year : Int) : (yearText year).all isInert = true := by
  have hsigns : isInert '-' = true ∧ isInert '+' = true := by decide
  unfold yearText
  split
  · exact all_isInert_padded _ _
  · split <;> simp [hsigns, all_isInert_padded]

theorem all_isInert_fractionText (nanos : Nat) : (fractionText nanos).all isInert = true := by
  have hpoint : isInert '.' = true := by decide
  unfold fractionText
  split
  · rfl
  · split
    · simp [hpoint, all_isInert_padded]
    · split <;> simp [hpoint, all_isInert_padded]

theorem all_isInert_print (t : Instant) : t.print.all isInert = true := by
  have hmarks : isInert '-' = true ∧ isInert 'T' = true ∧ isInert ':' = true ∧
      isInert '+' = true ∧ isInert '0' = true := by decide
  simp only [Instant.print, localText, List.all_append, List.all_cons, List.all_nil, hmarks,
    all_isInert_yearText, all_isInert_padded, all_isInert_fractionText, Bool.and_true]

theorem print_ne_nil (t : Instant) : t.print ≠ [] := by
  simp [Instant.print]

end Instant

namespace Printable

open Expression

/-- A printed value is read as a value. -/
theorem solid {t : FieldType} {v : Value} (h : Printable t v) : Solid v.display := by
  cases h with
  | int n =>
    refine solid_of_isInert (Json.intNumeral_ne_nil _) (List.all_eq_true.2 fun c hc => ?_)
    exact isInert_of_isNumeral (Json.isNumeral_intNumeral _ c hc)
  | @decimal x hx =>
    have hprint : (Value.decimal x).display = Binary64.printFinite plainStyle x := by
      rw [Value.display, Binary64.print_of_isFinite hx]
    rw [hprint]
    refine solid_of_isInert (Json.printFinite_ne_nil _ _) (List.all_eq_true.2 fun c hc => ?_)
    exact isInert_of_isNumeral (Json.isNumeral_printFinite (by simp [plainStyle]) x c hc)
  | bool b => cases b <;> exact ⟨by decide, by decide⟩
  | instant h =>
    rw [Value.display]
    exact solid_of_isInert (Instant.print_ne_nil _) (Instant.all_isInert_print _)

/-- The first of the patterns fits a printed instant. -/
theorem readInstant?_print {t : Instant} (h : 0 ≤ t.date.year ∧ t.date.year ≤ 9999) :
    ({} : FilterSettings).readInstant? t.print = some t := by
  have hfirst : FilterSettings.readInstantAs? t.print "rfc3339" = some t := by
    unfold FilterSettings.readInstantAs?
    rw [if_pos (by decide), Time.readStrict?_print h]
  unfold FilterSettings.readInstant?
  rw [List.findSome?_cons, hfirst]

/-- **A printed value is read back by its type.** -/
theorem coerce?_displayText {t : FieldType} {v : Value} (h : Printable t v)
    (enumValues : Option (List String)) :
    ({} : FilterSettings).coerce? t v.displayText enumValues = some v := by
  have htrim : trim v.displayText.toList = v.display := by
    rw [Value.displayText, String.toList_ofList, h.solid.trim_eq]
  unfold FilterSettings.coerce?
  rw [htrim]
  cases h with
  | int n => simp [Value.display, readInt64_intNumeral]
  | decimal hx =>
    simp [Value.display, FilterSettings.readDecimal?, Binary64.read_print hx, hx]
  | bool b => cases b <;> rfl
  | instant h =>
    simp only [Value.display, readInstant?_print h, Option.map_some]

end Printable

/-! ## Clauses -/

theorem Operand.Suits.imp {holds holds' : Value → Prop} {most : Nat} {o : Operator}
    {operand : Operand} (h : operand.Suits holds most o) (himp : ∀ v, holds v → holds' v) :
    operand.Suits holds' most o := by
  cases h with
  | null => exact .null
  | notNull => exact .notNull
  | single ho hv => exact .single ho (himp _ hv)
  | list hleast hmost hvs => exact .list hleast hmost fun v hv => himp v (hvs v hv)
  | range hlow hhigh => exact .range (himp _ hlow) (himp _ hhigh)

namespace FilterSettings

variable {c : Catalog} {key : String} {d : Definition}

/-- The printed values of an operand are read back. -/
theorem operand_written {o : Operator} {operand : Operand} {most : Nat}
    (h : operand.Suits (Printable d.fieldType) most o) :
    ({} : FilterSettings).operand d ⟨o, operand.written⟩ = .ok operand := by
  have hvalue : ∀ v, Printable d.fieldType v →
      ({} : FilterSettings).coerce d.name d.fieldType v.displayText d.enumValues = .ok v := by
    intro v hv
    unfold coerce
    rw [hv.coerce?_displayText]
  cases h with
  | null => rfl
  | notNull => rfl
  | @single o v ho hv =>
    have hpattern : o.isPattern = false := by
      simp only [List.mem_cons, List.not_mem_nil, or_false] at ho
      rcases ho with rfl | rfl | rfl | rfl | rfl | rfl <;> rfl
    simp [operand, Operand.written, hpattern, hvalue v hv, Except.map]
  | list hleast hmost hvs =>
    simp only [operand, Operand.written]
    rw [Except.mapM_map_eq_ok fun v hv => hvalue v (hvs v hv)]
    rfl
  | @range low high hlow hhigh =>
    simp only [operand, Operand.written, hvalue low hlow, hvalue high hhigh]
    rfl

/-- **Printed values come to the clause that they were printed for**, if the field allows the operator,
and to nothing else than its refusal if it does not. -/
theorem clause_printed {o : Operator} {operand : Operand}
    (hd : c.get? (c.resolve key) = some d) (hadmits : d.fieldType.admits o = true)
    (hoperand : operand.Suits (Printable d.fieldType) ({} : FilterSettings).maxInValues o) :
    ({} : FilterSettings).clause c key (Expression.render ⟨o, operand.written⟩) =
      if d.allows o then
        .ok { field := c.resolve key, operator := o, operand := operand, fieldType := d.fieldType,
              isVirtual := d.isVirtual, raw := Expression.render ⟨o, operand.written⟩,
              indexFriendly := true }
      else .error (.operatorNotAllowed (c.resolve key) o) := by
  have hread := Expression.read_render_written (hoperand.imp fun v hv => hv.solid)
  have hcount : o = .isIn → operand.written.length ≤ ({} : FilterSettings).maxInValues := by
    rintro rfl
    cases hoperand with
    | single ho => exact absurd ho (by decide)
    | list hleast hmost => simpa [Operand.written, RawOperand.length] using hmost
  have hindex : indexFriendly ⟨o, operand.written⟩ = true := by
    cases hoperand with
    | single ho =>
      simp only [List.mem_cons, List.not_mem_nil, or_false] at ho
      rcases ho with rfl | rfl | rfl | rfl | rfl | rfl <;> rfl
    | null | notNull | list | range => rfl
  rw [clause_of_read rfl rfl hd hread,
    clauseOf_of_operand hadmits hcount (operand_written hoperand), hindex]

section Ages

/-- Ages, which filters may list but not compare. -/
def ageColumn : Field where
  name := "age"
  fieldType := .integer
  operators := [.eq, .isIn]

/-- Nothing but ages. -/
def ages : Catalog := (({} : Catalog).enter (.field ageColumn)).2

theorem clause_printed_ages :
    ({} : FilterSettings).clause ages "age" "-5,30" =
      .ok { field := "age", operator := .isIn, operand := .list [.int (-5), .int 30],
            fieldType := .integer, isVirtual := false, raw := "-5,30", indexFriendly := true } := by
  have hvalues : ∀ v ∈ [Value.int (-5), .int 30], Printable .integer v := by
    simp [Printable.int]
  have hclause := clause_printed
    (show ages.get? (ages.resolve "age") = some (.persisted ageColumn) from rfl)
    (show FieldType.integer.admits .isIn = true by decide) (.list (by decide) (by decide) hvalues)
  have hrender : Expression.render ⟨.isIn, (Operand.list [.int (-5), .int 30]).written⟩ = "-5,30" := by
    decide +kernel
  rw [hrender] at hclause
  exact hclause

/-- **A field may refuse an operator that its type admits.** -/
theorem clause_printed_refused :
    FieldDraft.define { name := "age", fieldType := .integer, operators := some [.eq, .isIn] } =
        .ok ageColumn ∧
      ages.get? (ages.resolve "age") = some (.persisted ageColumn) ∧
      ¬ ∀ o operand, FieldType.integer.admits o = true →
        operand.Suits (Printable .integer) ({} : FilterSettings).maxInValues o →
        ∃ cl, ({} : FilterSettings).clause ages "age" (Expression.render ⟨o, operand.written⟩) = .ok cl ∧
          cl.operator = o ∧ cl.operand = operand := by
  refine ⟨rfl, rfl, fun h => ?_⟩
  obtain ⟨cl, hcl, -⟩ := h .gte (.single (.int 5)) rfl (.single (by decide) (.int 5))
  have hrender : Expression.render ⟨.gte, (Operand.single (.int 5)).written⟩ = ">=5" := by
    decide +kernel
  rw [hrender] at hcl
  cases hcl

end Ages

end FilterSettings

end FieldQuery

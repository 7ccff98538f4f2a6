import FieldQuery.Proofs.Listing.Plan
import FieldQuery.Proofs.Request.Clause
import FieldQuery.Proofs.Request.Expression

/-!
# What an accepted filter is

A comparison whose operand is not of its operator's kind never holds, and nothing tells that it cannot.
No filter that is accepted comes to one.

* `Operand.Fits` — the operands of an operator, with values of the field's type;
* `Clause.WellFormed` — a clause about a registered field that is not blocked, with an operator that the
  field and its type admit, and an operand that fits;
* `Operator.decides?` — what a comparison says by one of its arms; none if it is left to the last one;
* `Predicate.Compares` — the comparisons in a condition.

Principal results: `wellFormed_of_clause`, and `wellFormed_enterAll` — in every catalog that
registrations have built, clauses are well formed, and all comparisons of a translation, those of its
search included, are decided by an arm of their own and name no field that is blocked.
-/

namespace FieldQuery

/-! ## Operands -/

/-- The operands of an operator: nothing, a pattern, one value, a list of at least one and not too many,
or a range. -/
inductive Operand.Fits (typed : Value → Prop) (most : Nat) : Operator → Operand → Prop
  | null : Fits typed most .null .none
  | notNull : Fits typed most .notNull .none
  | pattern {o : Operator} (ho : o ∈ [.like, .notLike]) (word : String) :
      Fits typed most o (.single (.text word))
  | single {o : Operator} {v : Value} (ho : o ∈ [.eq, .ne, .gt, .gte, .lt, .lte]) (hv : typed v) :
      Fits typed most o (.single v)
  | list {vs : List Value} (hleast : 1 ≤ vs.length) (hmost : vs.length ≤ most)
      (hvs : ∀ v ∈ vs, typed v) : Fits typed most .isIn (.list vs)
  | range {low high : Value} (hlow : typed low) (hhigh : typed high) :
      Fits typed most .between (.range low high)

/-! ## Clauses -/

/-- A definition stands in a catalog under its name. -/
def Catalog.Registers (c : Catalog) : Definition → Prop
  | .persisted f => KeyMap.get? f.name c.fields = some f
  | .computed v => KeyMap.get? v.name c.virtualFields = some v

/-- A clause as it may come of a parameter: it is about the field behind the parameter, under the name
that it is registered by, and no filter on that field is refused on principle. -/
structure Clause.WellFormed (s : FilterSettings) (c : Catalog) (key : String) (cl : Clause)
    (d : Definition) : Prop where
  registered : c.Registers d
  field : cl.field = d.name
  resolved : c.resolve key = cl.field
  notAlias : cl.field ∉ KeyMap.keys c.aliases
  notBlocked : cl.field ∉ s.blockedFields ∧ key ∉ s.blockedFields
  fieldType : cl.fieldType = d.fieldType
  isVirtual : cl.isVirtual = d.isVirtual
  allowed : cl.operator ∈ d.operators
  admitted : cl.operator ∈ d.fieldType.operators
  operand : cl.operand.Fits (Value.HasType (d.enumValues.getD []) d.fieldType) s.maxInValues
    cl.operator

/-- The definition behind a name is registered under the name that it is resolved to. -/
theorem Catalog.Lawful.registers {c : Catalog} (hc : c.Lawful) {n : String} {d : Definition}
    (h : c.get? (c.resolve n) = some d) :
    c.Registers d ∧ c.resolve n = d.name ∧ c.resolve n ∉ KeyMap.keys c.aliases := by
  unfold get? at h
  rw [hc.resolve_resolve] at h
  dsimp only at h
  split at h
  · rename_i f hf
    cases h
    have hname : c.resolve n = f.name := hc.field_name _ (KeyMap.mem_of_get? hf)
    refine ⟨?_, hname, fun halias => hc.alias_not_field _ halias ?_⟩
    · show KeyMap.get? f.name c.fields = some f
      rw [← hname, hf]
    · exact List.mem_map_of_mem (KeyMap.mem_of_get? hf)
  · obtain ⟨v, hv, rfl⟩ := Option.map_eq_some_iff.1 h
    have hname : v.name = c.resolve n := hc.name_of_get? hv
    refine ⟨?_, hname.symm, fun halias => hc.alias_not_virtual _ halias ?_⟩
    · show KeyMap.get? v.name c.virtualFields = some v
      rw [hname, hv]
    · exact List.mem_map_of_mem (KeyMap.mem_of_get? hv)

/-! ## What is read of an operand -/

namespace FilterSettings

variable {s : FilterSettings} {c : Catalog} {key raw : String} {cl : Clause} {d : Definition}
  {e : Expression}

/-- **The operand of an expression fits its operator.** The forms of expressions are gone through one by
one: each has an operator of its own, or a few of a kind. -/
theorem operand_fits {operand : Operand} (hread : Expression.read raw = .ok e)
    (hcount : e.operator = .isIn → e.operand.length ≤ s.maxInValues)
    (h : s.operand d e = .ok operand) :
    operand.Fits (Value.HasType (d.enumValues.getD []) d.fieldType) s.maxInValues e.operator := by
  have hmade := madeOf_operand h
  cases Expression.form_of_read hread with
  | null =>
    cases hmade
    exact .null
  | notNull =>
    cases hmade
    exact .notNull
  | signed hv hsigned =>
    cases hsigned with
    | notLike =>
      cases hmade with
      | pattern => exact .pattern (by simp) _
      | single ho => cases ho
    | ne | gte | lte | gt | lt =>
      cases hmade with
      | pattern ho => cases ho
      | single _ hv => exact .single (by simp) hv
  | range hlow hhigh hsign =>
    cases hmade with
    | range hlow hhigh => exact .range hlow hhigh
  | @list words hne hwords =>
    cases hmade with
    | list hlength hvs =>
      have hmost := hcount rfl
      have hleast := List.length_pos_iff.2 hne
      simp only [RawOperand.length, List.length_map] at hlength hmost
      exact .list (by omega) (by omega) hvs
  | like =>
    cases hmade with
    | pattern => exact .pattern (by simp) _
    | single ho => cases ho
  | eq =>
    cases hmade with
    | pattern ho => cases ho
    | single _ hv => exact .single (by simp) hv

/-! ## What is accepted -/

theorem not_mem_of_isBlocked {name : String} (h : s.isBlocked name = false) :
    name ∉ s.blockedFields := by
  unfold isBlocked at h
  simpa using h

/-- **An accepted clause is well formed.** -/
theorem wellFormed_of_clause (hc : c.Lawful) (h : s.clause c key raw = .ok cl) :
    ∃ d, cl.WellFormed s c key d := by
  obtain ⟨⟨hkey, hname⟩, d, e, operand, ⟨hd, hread⟩, ⟨hadmits, hallows⟩, hcount, hoperand, rfl⟩ :=
    clause_eq_ok_iff.1 h
  obtain ⟨hregistered, hfield, halias⟩ := hc.registers hd
  exact ⟨d, {
    registered := hregistered
    field := hfield
    resolved := rfl
    notAlias := halias
    notBlocked := ⟨not_mem_of_isBlocked hname, not_mem_of_isBlocked hkey⟩
    fieldType := rfl
    isVirtual := rfl
    allowed := List.contains_iff_mem.1 hallows
    admitted := List.contains_iff_mem.1 hadmits
    operand := operand_fits hread hcount hoperand }⟩

end FilterSettings

/-! ## Comparisons -/

/-- What one of the arms of a comparison says of a value that is not null; none if only the last arm is
left, which takes everything and never holds. -/
def Operator.decides? (o : Operator) (v : Value) (operand : Operand) : Option Bool :=
  match o, operand with
  | .null, _ => some false
  | .notNull, _ => some true
  | .eq, .single w => some (v.sameAs w)
  | .ne, .single w => some (!v.sameAs w)
  | .like, .single (.text pattern) => some (v.fitsPattern pattern)
  | .notLike, .single (.text pattern) => some (!v.fitsPattern pattern)
  | .gt, .single w => some (v.isAbove w)
  | .gte, .single w => some (v.isAbove w || v.sameAs w)
  | .lt, .single w => some (v.isBelow w)
  | .lte, .single w => some (v.isBelow w || v.sameAs w)
  | .isIn, .list ws => some (ws.any v.sameAs)
  | .between, .range low high =>
    some ((v.isAbove low || v.sameAs low) && (v.isBelow high || v.sameAs high))
  | _, _ => none

/-- A comparison holds if one of its arms says so. -/
theorem Operator.holdsOf_eq (o : Operator) (v : Value) (operand : Operand) :
    o.holdsOf v operand = (o.decides? v operand).getD false := by
  unfold holdsOf decides?
  split <;> simp_all

/-- An operand that fits its operator is decided about by an arm of its own. -/
theorem Operand.Fits.decides {typed : Value → Prop} {most : Nat} {o : Operator} {operand : Operand}
    (h : operand.Fits typed most o) (v : Value) : ∃ b, o.decides? v operand = some b := by
  cases h with
  | null | notNull | list | range => exact ⟨_, rfl⟩
  | pattern ho word =>
    simp only [List.mem_cons, List.not_mem_nil, or_false] at ho
    rcases ho with rfl | rfl <;> exact ⟨_, rfl⟩
  | single ho hv =>
    simp only [List.mem_cons, List.not_mem_nil, or_false] at ho
    rcases ho with rfl | rfl | rfl | rfl | rfl | rfl <;> exact ⟨_, rfl⟩

/-- The comparisons in a condition. -/
inductive Predicate.Compares (field : String) (o : Operator) (operand : Operand) : Predicate → Prop
  | self : Compares field o operand (.compare field o operand)
  | within {alternatives : List Predicate} {alternative : Predicate}
      (hmem : alternative ∈ alternatives) (h : Compares field o operand alternative) :
      Compares field o operand (.anyOf alternatives)

/-- Every comparison in a condition names a field that filters may name, and whatever is loaded of the
field, if it is not null, an arm of its own decides whether it holds. -/
def Predicate.IsDecided (s : FilterSettings) (condition : Predicate) : Prop :=
  ∀ field o operand, condition.Compares field o operand → field ∉ s.blockedFields ∧
    ∀ v : Value, v.isNull = false → ∃ b, o.decides? v operand = some b ∧ o.holds (some v) operand = b

/-- A value that is loaded and not null is left to the arms. -/
theorem Operator.holds_eq_of_decides? {o : Operator} {v : Value} {operand : Operand} {b : Bool}
    (hv : v.isNull = false) (h : o.decides? v operand = some b) : o.holds (some v) operand = b := by
  have hholds : o.holds (some v) operand = o.holdsOf v operand := by
    cases v with
    | null => cases hv
    | bool | int | decimal | text | instant | list => rfl
  rw [hholds, Operator.holdsOf_eq, h]
  rfl

namespace FilterSettings

variable {s : FilterSettings} {c : Catalog}

theorem isDecided_compare {field : String} {o : Operator} {operand : Operand}
    (hfield : field ∉ s.blockedFields) (h : ∀ v, ∃ b, o.decides? v operand = some b) :
    Predicate.IsDecided s (.compare field o operand) := by
  rintro _ _ _ ⟨⟩
  refine ⟨hfield, fun v hv => ?_⟩
  obtain ⟨b, hb⟩ := h v
  exact ⟨b, hb, Operator.holds_eq_of_decides? hv hb⟩

theorem isDecided_anyOf {alternatives : List Predicate}
    (h : ∀ p ∈ alternatives, Predicate.IsDecided s p) : Predicate.IsDecided s (.anyOf alternatives) := by
  intro field o operand hcompares
  cases hcompares with
  | within hmem hcompares => exact h _ hmem field o operand hcompares

/-- The conditions of a search are decided: they name no field that is blocked, and have patterns for
operands. -/
theorem isDecided_searchPredicate {term : String} {group : Predicate}
    (h : s.searchPredicate c term = some group) : group.IsDecided s := by
  unfold searchPredicate at h
  split at h
  · cases h
  · cases h
    refine isDecided_anyOf fun p hp => ?_
    obtain ⟨name, hname, rfl⟩ := List.mem_map.1 hp
    obtain ⟨-, hfree⟩ := List.mem_filter.1 hname
    exact isDecided_compare (not_mem_of_isBlocked (by simpa using hfree)) fun v => ⟨_, rfl⟩

/-- The condition of a clause is decided. -/
theorem isDecided_predicate {key : String} {cl : Clause} {d : Definition}
    (h : cl.WellFormed s c key d) : cl.predicate.IsDecided s :=
  isDecided_compare h.notBlocked.1 h.operand.decides

/-- **Accepted clauses are well formed and never blocked.** In every catalog that registrations have
built, a clause that a parameter comes to is well formed, and every comparison in the conditions of a
translation, for the store or on virtual fields, is decided by an arm of its own and names no field that
is blocked. -/
theorem wellFormed_enterAll (s : FilterSettings) (rs : List Registration) :
    (∀ key raw cl, s.clause (Catalog.enterAll {} rs) key raw = .ok cl →
      ∃ d, cl.WellFormed s (Catalog.enterAll {} rs) key d) ∧
    ∀ p t, s.translate (Catalog.enterAll {} rs) p = .ok t →
      ∀ condition ∈ t.predicates ++ t.virtualPredicates, condition.IsDecided s := by
  have hc : Catalog.Lawful (Catalog.enterAll {} rs) := Catalog.Lawful.empty.enterAll rs
  refine ⟨fun key raw cl hcl => wellFormed_of_clause hc hcl, fun p t ht condition hcondition => ?_⟩
  obtain rfl := translate_ok ht
  have hactive : ∀ cl ∈ (s.collect (Catalog.enterAll {} rs) p).active, cl.predicate.IsDecided s := by
    intro cl hcl
    obtain ⟨key, raw, hclause⟩ := mem_active hcl
    obtain ⟨d, hd⟩ := wellFormed_of_clause hc hclause
    exact isDecided_predicate hd
  rcases List.mem_append.1 hcondition with hstore | hvirtual
  · rcases List.mem_append.1 hstore with hstored | hsearch
    · obtain ⟨cl, hcl, rfl⟩ := List.mem_map.1 hstored
      exact hactive cl (List.mem_filter.1 hcl).1
    · obtain ⟨term, -, hterm⟩ := Option.bind_eq_some_iff.1 (Option.mem_toList.1 hsearch)
      exact isDecided_searchPredicate hterm
  · obtain ⟨cl, hcl, rfl⟩ := List.mem_map.1 hvirtual
    exact hactive cl (List.mem_filter.1 hcl).1

section Tickets

/-- The state of a ticket. -/
def ticketState : Field where
  name := "state"
  fieldType := .enumeration
  operators := [.eq, .isIn]
  enumValues := some ["open", "closed"]

/-- A text of a ticket. -/
def ticketText (name : String) : Field where
  name := name
  fieldType := .text
  operators := [.like]
  searchable := true

/-- States under a second name, and two texts that searches look into. -/
def ticketRegistrations : List Registration :=
  [.field ticketState, .aliased "status" "state", .field (ticketText "title"),
    .field (ticketText "notes")]

/-- Settings that leave one of the texts out. -/
def ticketSettings : FilterSettings := { blockedFields := ["notes"] }

/-- A list of states under their second name, and a search that leaves the blocked text out. -/
theorem wellFormed_tickets :
    (∃ cl d, ticketSettings.clause (Catalog.enterAll {} ticketRegistrations) "status" "open, closed" =
        .ok cl ∧ cl.WellFormed ticketSettings (Catalog.enterAll {} ticketRegistrations) "status" d) ∧
    ∃ t, ticketSettings.translate (Catalog.enterAll {} ticketRegistrations)
        ⟨[("search", "printer")]⟩ = .ok t ∧
      t.predicates = [.anyOf [.compare "title" .like (.single (.text "*printer*"))]] ∧
      ∀ condition ∈ t.predicates, condition.IsDecided ticketSettings := by
  obtain ⟨hclauses, hconditions⟩ := wellFormed_enterAll ticketSettings ticketRegistrations
  refine ⟨?_, ?_⟩
  · cases hclause : ticketSettings.clause (Catalog.enterAll {} ticketRegistrations) "status"
        "open, closed" with
    | error err =>
      have hread : (ticketSettings.clause (Catalog.enterAll {} ticketRegistrations) "status"
          "open, closed").toOption.isSome = true := by decide +kernel
      rw [hclause] at hread
      cases hread
    | ok cl =>
      obtain ⟨d, hd⟩ := hclauses "status" "open, closed" cl hclause
      exact ⟨cl, d, rfl, hd⟩
  · have ht : ticketSettings.translate (Catalog.enterAll {} ticketRegistrations)
        ⟨[("search", "printer")]⟩ = .ok _ :=
      translate_eq_ok_iff.2 ⟨(nomatch ·), by decide +kernel⟩
    refine ⟨_, ht, by rfl, fun condition hcondition => ?_⟩
    exact hconditions _ _ ht condition (List.mem_append_left _ hcondition)

end Tickets

end FilterSettings

end FieldQuery

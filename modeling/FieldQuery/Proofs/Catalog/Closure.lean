import FieldQuery.Proofs.Catalog.Order
import FieldQuery.Proofs.Data.KeyMap
import FieldQuery.Proofs.Engine.Loaded

/-!
# What a virtual field needs altogether

* `Closure` — the virtual fields that can be reached from a name over declared dependencies;
* `walk` — a walk over dependencies that marks names when it enters them, and what it comes upon:
  columns, and the virtual fields that it leaves;
* `LoadPlan.add` — a plan with what a walk has come upon.

A marked name is passed over even if the walk has not left it yet.  Without cycles such a name has
been left: one that has not is on the way to where the walk is.

Principal results: `names_walk` — the fields that the walk leaves are those of the order of
computation, in that order, `accounted_walk` — the columns that it meets are those of the fields
that it leaves, and `isClosed_enterAll` — order and plan of every name in every catalog that
registrations have built.
-/

namespace FieldQuery

open Relation

namespace Catalog

/-- The virtual fields that can be reached from a name, the one behind it included. -/
def Closure (c : Catalog) (name x : String) : Prop :=
  c.resolve name ∈ KeyMap.keys c.virtualFields ∧ ReflTransGen c.Needs (c.resolve name) x

/-- A virtual field has a dependency that is none. -/
def NeedsColumn (c : Catalog) (x d : String) : Prop :=
  ∃ v, KeyMap.get? x c.virtualFields = some v ∧ d ∈ v.dependencies ∧
    d ∉ KeyMap.keys c.virtualFields

/-- A virtual field has a relation. -/
def NeedsRelation (c : Catalog) (x r : String) : Prop :=
  ∃ v, KeyMap.get? x c.virtualFields = some v ∧ r ∈ v.relationships

/-! ## The walk -/

/-- What a walk over dependencies comes upon. -/
inductive Finding where
  /-- A dependency that is no virtual field. -/
  | column (name : String)
  /-- A virtual field whose dependencies have been dealt with, and its relations. -/
  | field (name : String) (relations : List String)

/-- The virtual field of a finding. -/
def Finding.name? : Finding → Option String
  | .column _ => none
  | .field name _ => some name

/-- Goes on to a dependency: into a virtual field, and past a column. -/
def goOn (c : Catalog) (enter : List String → String → List String × List Finding)
    (st : List String × List Finding) (d : String) : List String × List Finding :=
  if KeyMap.contains d c.virtualFields then ((enter st.1 d).1, st.2 ++ (enter st.1 d).2)
  else (st.1, st.2 ++ [.column d])

/-- A walk over the dependencies of a name, with the names that have been marked before it. -/
def walk (c : Catalog) : Nat → List String → String → List String × List Finding
  | 0, marked, _ => (marked, [])
  | fuel + 1, marked, name =>
    if marked.contains name then (marked, [])
    else match KeyMap.get? name c.virtualFields with
      | none => (name :: marked, [])
      | some v =>
        let st := v.dependencies.foldl (c.goOn (c.walk fuel)) (name :: marked, [])
        (st.1, st.2 ++ [.field name v.relationships])

/-- All that the walk from the registered name behind a name comes upon. -/
def findings (c : Catalog) (name : String) : List Finding :=
  (c.walk c.depth [] (c.resolve name)).2

end Catalog

/-- The plan with a finding more. -/
def LoadPlan.add (p : LoadPlan) : Catalog.Finding → LoadPlan
  | .column d => { p with columns := Names.insert d p.columns }
  | .field _ relations => { p with relations := p.relations.union relations }

namespace Catalog

open Walk

variable {c : Catalog}

/-! ### The order in which fields are left -/

/-- The names of the fields among findings. -/
def names (found : List Finding) : List String := found.filterMap Finding.name?

@[simp] theorem names_append (found found' : List Finding) :
    names (found ++ found') = names found ++ names found' := List.filterMap_append

/-- The marked names are those that have been left and those on the way. -/
def Marks (marked order path : List String) : Prop := ∀ x, x ∈ marked ↔ x ∈ order ∨ x ∈ path

/-- Two walks go on to the dependencies of a field side by side if they do so for each. -/
theorem names_foldl_goOn {fuel : Nat} {order path : List String} {deps : List String}
    (ih : ∀ d ∈ deps, KeyMap.contains d c.virtualFields = true → ∀ marked order,
      Marks marked order path →
        postorder c.references fuel order d = order ++ names (c.walk fuel marked d).2 ∧
          Marks (c.walk fuel marked d).1 (order ++ names (c.walk fuel marked d).2) path)
    {w : List String × List Finding} (hw : Marks w.1 (order ++ names w.2) path) :
    (deps.filter fun d => KeyMap.contains d c.virtualFields).foldl (postorder c.references fuel)
        (order ++ names w.2) = order ++ names (deps.foldl (c.goOn (c.walk fuel)) w).2 ∧
      Marks (deps.foldl (c.goOn (c.walk fuel)) w).1
        (order ++ names (deps.foldl (c.goOn (c.walk fuel)) w).2) path := by
  induction deps generalizing w with
  | nil => exact ⟨rfl, hw⟩
  | cons d deps ihd =>
    have hrest := fun d' hd' => ih d' (List.mem_cons_of_mem d hd')
    rw [List.foldl_cons]
    by_cases hd : KeyMap.contains d c.virtualFields = true
    · obtain ⟨horder, hmarks⟩ := ih d List.mem_cons_self hd w.1 _ hw
      have hstep : c.goOn (c.walk fuel) w d =
          ((c.walk fuel w.1 d).1, w.2 ++ (c.walk fuel w.1 d).2) := if_pos hd
      rw [List.filter_cons_of_pos (by simpa using hd), List.foldl_cons, horder, hstep,
        List.append_assoc, ← names_append]
      refine ihd (w := ((c.walk fuel w.1 d).1, w.2 ++ (c.walk fuel w.1 d).2)) hrest ?_
      dsimp only
      rw [names_append, ← List.append_assoc]
      exact hmarks
    · have hstep : c.goOn (c.walk fuel) w d = (w.1, w.2 ++ [.column d]) := if_neg hd
      have hnames : names (w.2 ++ [.column d]) = names w.2 := by
        rw [names_append]
        exact List.append_nil _
      rw [List.filter_cons_of_neg (by simpa using hd), hstep, ← hnames]
      refine ihd (w := (w.1, w.2 ++ [.column d])) hrest ?_
      dsimp only
      rwa [hnames]

/-- **The fields that a walk leaves are those of the order of computation, in that order**, though the
walk passes over every name that it has entered and the order over those only that it has left. -/
theorem names_walk (hc : c.Lawful) :
    ∀ (fuel : Nat) (path marked order : List String) (name : String),
      Walking c.references (KeyMap.keys c.virtualFields) fuel path name → Marks marked order path →
        postorder c.references fuel order name = order ++ names (c.walk fuel marked name).2 ∧
          Marks (c.walk fuel marked name).1 (order ++ names (c.walk fuel marked name).2) path
  | 0, _, _, _, _, hwalk, _ => absurd hwalk.fuel_pos (Nat.lt_irrefl 0)
  | fuel + 1, path, marked, order, name, hwalk, hmarks => by
    have hpath : name ∉ path := by
      intro hmem
      obtain ⟨a, hcycle⟩ := (closed_of_mem hwalk.chain hwalk.nodup hmem).cycle
      exact hc.acyclic_references a hcycle
    have hmarked : marked.contains name = order.contains name := by
      rw [Bool.eq_iff_iff, List.contains_iff_mem, List.contains_iff_mem, hmarks name]
      exact or_iff_left hpath
    unfold walk postorder
    rw [hmarked]
    split
    · exact ⟨(List.append_nil _).symm, by rwa [show names [] = [] from rfl, List.append_nil]⟩
    · obtain ⟨v, hv⟩ := get?_of_mem_keys hwalk.mem
      have hreferences : c.references name =
          v.dependencies.filter fun d => KeyMap.contains d c.virtualFields := by
        unfold references
        rw [hv]
      have hstart : Marks (name :: marked) (order ++ names []) (path ++ [name]) := by
        intro x
        rw [show names [] = [] from rfl, List.append_nil, List.mem_cons, List.mem_append,
          List.mem_singleton, hmarks x]
        tauto
      obtain ⟨horder, hmarks'⟩ := @names_foldl_goOn c fuel order (path ++ [name]) v.dependencies
        (fun d hd hvirtual marked order hmarks => names_walk hc fuel (path ++ [name]) marked order d
          (hwalk.step c.references_closed hpath
            (hreferences ▸ List.mem_filter.2 ⟨hd, hvirtual⟩)) hmarks) (name :: marked, []) hstart
      rw [← hreferences, show names [] = [] from rfl, List.append_nil] at horder
      rw [horder, hv]
      dsimp only
      rw [names_append, ← List.append_assoc]
      refine ⟨rfl, fun x => ?_⟩
      rw [hmarks' x, show names [.field name v.relationships] = [name] from rfl]
      simp only [List.mem_append]
      tauto

/-! ### The columns on the way -/

/-- What has been found about fields and columns goes together: the columns are those of the fields
that have been left, and some of the field that is being dealt with. -/
def Accounted (c : Catalog) (own : List String) (found : List Finding) : Prop :=
  (∀ x rs, .field x rs ∈ found → ∃ v, KeyMap.get? x c.virtualFields = some v ∧ v.relationships = rs) ∧
    ∀ d, .column d ∈ found ↔ (∃ x ∈ names found, c.NeedsColumn x d) ∨ d ∈ own

theorem mem_names {x : String} {found : List Finding} :
    x ∈ names found ↔ ∃ rs, .field x rs ∈ found := by
  unfold names
  rw [List.mem_filterMap]
  constructor
  · rintro ⟨f | ⟨y, rs⟩, hmem, hname⟩
    · cases hname
    · cases hname
      exact ⟨rs, hmem⟩
  · rintro ⟨rs, hmem⟩
    exact ⟨_, hmem, rfl⟩

theorem Accounted.nil : c.Accounted [] [] :=
  ⟨fun _ _ h => (nomatch h), fun d => by simp [names]⟩

theorem Accounted.append {own own' : List String} {found found' : List Finding}
    (h : c.Accounted own found) (h' : c.Accounted own' found') :
    c.Accounted (own ++ own') (found ++ found') := by
  refine ⟨fun x rs hmem => (List.mem_append.1 hmem).elim (h.1 x rs) (h'.1 x rs), fun d => ?_⟩
  simp only [List.mem_append, h.2 d, h'.2 d, names_append, or_and_right, exists_or]
  exact or_or_or_comm

theorem Accounted.column (d : String) : c.Accounted [d] [.column d] :=
  ⟨fun _ _ h => (by simp at h), fun d' => by simp [names, Finding.name?]⟩

/-- A field that is left has its columns among what has been found. -/
theorem Accounted.leave {found : List Finding} {name : String} {v : VirtualField}
    (hv : KeyMap.get? name c.virtualFields = some v)
    (h : c.Accounted (v.dependencies.filter fun d => !KeyMap.contains d c.virtualFields) found) :
    c.Accounted [] (found ++ [.field name v.relationships]) := by
  refine ⟨fun x rs hmem => ?_, fun d => ?_⟩
  · rcases List.mem_append.1 hmem with hmem | hmem
    · exact h.1 x rs hmem
    · cases List.mem_singleton.1 hmem
      exact ⟨v, hv, rfl⟩
  · have hown : d ∈ (v.dependencies.filter fun d => !KeyMap.contains d c.virtualFields) ↔
        c.NeedsColumn name d := by
      rw [List.mem_filter, Bool.not_eq_true', KeyMap.contains_eq_false_iff]
      constructor
      · exact fun hd => ⟨v, hv, hd⟩
      · rintro ⟨w, hw, hd⟩
        obtain rfl := Option.some.inj (hv.symm.trans hw)
        exact hd
    rw [List.mem_append, h.2 d, hown, names_append]
    simp [names, Finding.name?, or_and_right, exists_or]

/-- **The columns that a walk meets are those of the fields that it leaves.** -/
theorem accounted_walk : ∀ (fuel : Nat) (marked : List String) (name : String),
    c.Accounted [] (c.walk fuel marked name).2
  | 0, _, _ => .nil
  | fuel + 1, marked, name => by
    unfold walk
    split
    · exact .nil
    · split
      · exact .nil
      · rename_i v hv
        refine .leave hv ?_
        have hfold : ∀ (deps : List String) (own : List String) (st : List String × List Finding),
            c.Accounted own st.2 →
              c.Accounted (own ++ deps.filter fun d => !KeyMap.contains d c.virtualFields)
                (deps.foldl (c.goOn (c.walk fuel)) st).2 := by
          intro deps
          induction deps with
          | nil => exact fun own st h => (List.append_nil own).symm ▸ h
          | cons d deps ih =>
            intro own st h
            rw [List.foldl_cons]
            by_cases hd : KeyMap.contains d c.virtualFields = true
            · rw [List.filter_cons_of_neg (by simp [hd]), show c.goOn (c.walk fuel) st d =
                ((c.walk fuel st.1 d).1, st.2 ++ (c.walk fuel st.1 d).2) from if_pos hd]
              exact ih own _ (List.append_nil own ▸ h.append (accounted_walk fuel st.1 d))
            · rw [List.filter_cons_of_pos (by simp [hd]), show c.goOn (c.walk fuel) st d =
                (st.1, st.2 ++ [.column d]) from if_neg hd, List.append_cons]
              exact ih (own ++ [d]) _ (h.append (.column d))
        exact hfold v.dependencies [] _ .nil

end Catalog

/-! ## Plans as sets -/

namespace LoadPlan

/-- Columns and relations are in order, each once. -/
structure Sorted (p : LoadPlan) : Prop where
  columns : p.columns.Sorted
  relations : p.relations.Sorted

/-- Plans that name the same are one plan. -/
theorem Sorted.ext {p q : LoadPlan} (h : p.Sorted) (h' : q.Sorted)
    (hcolumns : ∀ d, d ∈ p.columns ↔ d ∈ q.columns)
    (hrelations : ∀ r, r ∈ p.relations ↔ r ∈ q.relations) : p = q := by
  obtain ⟨columns, relations⟩ := p
  obtain ⟨columns', relations'⟩ := q
  rw [show columns = columns' from h.columns.ext h'.columns hcolumns,
    show relations = relations' from h.relations.ext h'.relations hrelations]

theorem sorted_nil : ({} : LoadPlan).Sorted := ⟨Names.sorted_nil, Names.sorted_nil⟩

theorem Sorted.foldl_merge {α : Type} (plan : α → LoadPlan) (as : List α) {p : LoadPlan}
    (h : p.Sorted) : (as.foldl (fun p a => p.merge (plan a)) p).Sorted := by
  rw [LoadPlan.foldl_merge]
  exact ⟨h.columns.foldl_union _ as, h.relations.foldl_union _ as⟩

open Catalog (Finding)

/-- A plan names what has been added to it. -/
theorem foldl_add (found : List Finding) {p : LoadPlan} (h : p.Sorted) :
    (found.foldl add p).Sorted ∧
      (∀ d, d ∈ (found.foldl add p).columns ↔ d ∈ p.columns ∨ .column d ∈ found) ∧
      ∀ r, r ∈ (found.foldl add p).relations ↔
        r ∈ p.relations ∨ ∃ x rs, .field x rs ∈ found ∧ r ∈ rs := by
  induction found generalizing p with
  | nil => exact ⟨h, fun d => by simp, fun r => by simp⟩
  | cons f found ih =>
    rw [List.foldl_cons]
    cases f with
    | column name =>
      obtain ⟨hsorted, hcolumns, hrelations⟩ :=
        ih (p := p.add (.column name)) ⟨h.columns.insert, h.relations⟩
      refine ⟨hsorted, fun d => ?_, fun r => ?_⟩
      · rw [hcolumns d]
        simp [add, or_assoc, or_left_comm]
      · rw [hrelations r]
        simp [add]
    | field name relations =>
      obtain ⟨hsorted, hcolumns, hrelations⟩ :=
        ih (p := p.add (.field name relations)) ⟨h.columns, h.relations.union relations⟩
      refine ⟨hsorted, fun d => ?_, fun r => ?_⟩
      · rw [hcolumns d]
        simp [add]
      · rw [hrelations r]
        simp [add, Names.mem_union, or_assoc, or_and_right, exists_or]

end LoadPlan

namespace Catalog

open Walk

variable {c : Catalog}

theorem sorted_plan (c : Catalog) (name : String) : (c.plan name).Sorted :=
  LoadPlan.sorted_nil.foldl_merge c.ownPlan _

theorem mem_ownPlan {x : String} :
    (∀ d, d ∈ (c.ownPlan x).columns ↔ c.NeedsColumn x d) ∧
      ∀ r, r ∈ (c.ownPlan x).relations ↔ c.NeedsRelation x r := by
  unfold ownPlan NeedsColumn NeedsRelation
  cases KeyMap.get? x c.virtualFields with
  | none => simp
  | some v => simp [Names.mem_ofList, KeyMap.contains_eq_false_iff]

/-- A plan names the columns and the relations of the fields in the order of computation. -/
theorem mem_plan {name : String} :
    (∀ d, d ∈ (c.plan name).columns ↔ ∃ x ∈ c.computationOrder name, c.NeedsColumn x d) ∧
      ∀ r, r ∈ (c.plan name).relations ↔ ∃ x ∈ c.computationOrder name, c.NeedsRelation x r := by
  unfold plan
  rw [LoadPlan.foldl_merge]
  simp only [Names.mem_foldl_union, mem_ownPlan.1, mem_ownPlan.2, List.not_mem_nil, false_or,
    implies_true, and_self]

/-- What is behind no virtual field is needed by none. -/
theorem computationOrder_eq_nil {name : String}
    (h : c.resolve name ∉ KeyMap.keys c.virtualFields) : c.computationOrder name = [] :=
  if_neg fun hcontains => h (KeyMap.contains_eq_true_iff.1 hcontains)

/-- An alias has the order of the field that it stands for. -/
theorem Lawful.computationOrder_resolve (hc : c.Lawful) {name : String}
    (hname : c.resolve name ∈ KeyMap.keys c.virtualFields) :
    c.computationOrder (c.resolve name) = c.computationOrder name := by
  unfold computationOrder
  rw [hc.resolve_virtual hname]

/-- The order of computation lists the closure. -/
theorem Lawful.mem_computationOrder (hc : c.Lawful) {name : String} (x : String) :
    x ∈ c.computationOrder name ↔ c.Closure name x := by
  unfold Closure
  by_cases hname : c.resolve name ∈ KeyMap.keys c.virtualFields
  · rw [← hc.computationOrder_resolve hname, (hc.computationOrder_spec hname).2.2 x]
    exact (and_iff_right hname).symm
  · rw [computationOrder_eq_nil hname]
    simp [hname]

/-- The fields of an order are virtual fields. -/
theorem Lawful.mem_keys_of_computationOrder (hc : c.Lawful) {name g : String}
    (hg : g ∈ c.computationOrder name) : g ∈ KeyMap.keys c.virtualFields := by
  obtain ⟨hname, hreach⟩ := (hc.mem_computationOrder g).1 hg
  exact mem_keys_of_reach hname hreach

/-- Each name stands in the order behind what it needs, and once. -/
theorem Lawful.finished_computationOrder (hc : c.Lawful) (name : String) :
    Finished c.references (c.computationOrder name).reverse := by
  by_cases hname : c.resolve name ∈ KeyMap.keys c.virtualFields
  · rw [← hc.computationOrder_resolve hname]
    exact (hc.computationOrder_spec hname).1
  · rw [computationOrder_eq_nil hname]
    trivial

/-- **The walk leaves the fields of the order of computation.** -/
theorem Lawful.names_findings (hc : c.Lawful) (name : String) :
    names (c.findings name) = c.computationOrder name := by
  by_cases hname : c.resolve name ∈ KeyMap.keys c.virtualFields
  · have horder : c.computationOrder name = postorder c.references c.depth [] (c.resolve name) :=
      if_pos (KeyMap.contains_eq_true_iff.2 hname)
    have hmarks : Marks [] [] [] := fun x => by simp
    rw [horder, (names_walk hc c.depth [] [] [] _ (.start hname c.length_keys_lt_depth) hmarks).1]
    rfl
  · rw [computationOrder_eq_nil hname]
    have hget : KeyMap.get? (c.resolve name) c.virtualFields = none := by
      rw [← KeyMap.contains_eq_false_iff] at hname
      exact Option.isSome_eq_false_iff.1 hname |> Option.isNone_iff_eq_none.1
    unfold findings depth walk
    rw [hget]
    rfl

/-- **The walk finds what the plan names.** -/
theorem Lawful.foldl_add_findings (hc : c.Lawful) (name : String) :
    (c.findings name).foldl LoadPlan.add {} = c.plan name := by
  obtain ⟨hsorted, hcolumns, hrelations⟩ := LoadPlan.foldl_add (c.findings name) LoadPlan.sorted_nil
  obtain ⟨hfields, hfound⟩ := c.accounted_walk c.depth [] (c.resolve name)
  refine hsorted.ext (c.sorted_plan name) (fun d => ?_) fun r => ?_
  · rw [hcolumns, mem_plan.1, ← hc.names_findings]
    simpa [findings] using hfound d
  · rw [hrelations, mem_plan.2, ← hc.names_findings]
    simp only [List.not_mem_nil, false_or, mem_names]
    constructor
    · rintro ⟨x, rs, hmem, hr⟩
      obtain ⟨v, hv, rfl⟩ := hfields x rs hmem
      exact ⟨x, ⟨_, hmem⟩, v, hv, hr⟩
    · rintro ⟨x, ⟨rs, hmem⟩, v, hv, hr⟩
      obtain ⟨w, hw, rfl⟩ := hfields x rs hmem
      obtain rfl := Option.some.inj (hv.symm.trans hw)
      exact ⟨x, _, hmem, hr⟩

/-- Order and plan of a name are made of its closure, and of nothing else. -/
structure IsClosed (c : Catalog) (name : String) : Prop where
  nodup : (c.computationOrder name).Nodup
  mem_order : ∀ x, x ∈ c.computationOrder name ↔ c.Closure name x
  before : ∀ first x rest, c.computationOrder name = first ++ x :: rest →
    ∀ d, c.Needs x d → d ∈ first
  last : c.isVirtual name = true → ∃ first, c.computationOrder name = first ++ [c.resolve name]
  mem_columns : ∀ d, d ∈ (c.plan name).columns ↔ ∃ x, c.Closure name x ∧ c.NeedsColumn x d
  mem_relations : ∀ r, r ∈ (c.plan name).relations ↔ ∃ x, c.Closure name x ∧ c.NeedsRelation x r
  sorted : (c.plan name).Sorted
  names_findings : names (c.findings name) = c.computationOrder name
  add_findings : (c.findings name).foldl LoadPlan.add {} = c.plan name

/-- In an order whose names have been left one after the other, each name stands behind its
successors. -/
theorem mem_of_finished {next : String → List String} {order first rest : List String}
    {x d : String} (h : Finished next order.reverse) (horder : order = first ++ x :: rest)
    (hd : d ∈ next x) : d ∈ first := by
  rw [horder, List.reverse_append, List.reverse_cons, List.append_assoc] at h
  exact List.mem_reverse.1 (h.of_append.2.1 d hd)

/-- **Every name in every catalog that registrations have built has the order and the plan of its
closure.**  The order lists the virtual fields of the closure, each once and behind all that it needs,
and the one behind the name last; the plan names the columns and the relations of these fields.  A walk
that passes over what it has once entered comes to the same order and the same plan. -/
theorem isClosed_enterAll (rs : List Registration) (name : String) :
    (enterAll {} rs).IsClosed name := by
  have hc : Lawful (Catalog.enterAll {} rs) := Lawful.empty.enterAll rs
  generalize Catalog.enterAll {} rs = c at hc
  have hmem : ∀ x, x ∈ c.computationOrder name ↔ c.Closure name x := hc.mem_computationOrder
  have hfinished := hc.finished_computationOrder name
  exact {
    nodup := List.nodup_reverse.1 hfinished.nodup
    mem_order := hmem
    before := fun first x rest horder d hd =>
      mem_of_finished hfinished horder (mem_references.2 hd)
    last := fun hvirtual => by
      have hname := KeyMap.contains_eq_true_iff.1 hvirtual
      rw [← hc.computationOrder_resolve hname]
      exact (hc.computationOrder_spec hname).2.1
    mem_columns := fun d => by simp only [mem_plan.1, hmem]
    mem_relations := fun r => by simp only [mem_plan.2, hmem]
    sorted := c.sorted_plan name
    names_findings := hc.names_findings name
    add_findings := hc.foldl_add_findings name }

end Catalog

end FieldQuery

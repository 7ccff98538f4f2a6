import FieldQuery.Proofs.Data.StableSort
import FieldQuery.Proofs.Store.Loading

/-!
# Rows of a store in windows

* `compareKeys_preorderOn`, `compareRows_preorderOn` — the order of sort keys, and of rows by a column,
  is a total preorder if the order of the values among them is one;
* `window_eq` — a window is a part of the rows in their order;
* `Backend.Reads`, `Backend.Reliable` — a store that answers what its tables say or fails, and one that
  does not fail; tables in memory are both.

Principal results: `loads_reads` — windows of one size, one after the other, are all rows,
`fetchAll_reads` and `fetchAll_eq` — all matching rows in the order that is asked for, whatever the size
of the windows; `arrange_stablySorted` — a column sorts them stably.
-/

namespace FieldQuery

/-! ## Sort keys -/

/-- The comparison of two values in a direction. -/
def Direction.compare (direction : Direction) (v w : Value) : Ordering :=
  match direction with
  | .ascending => v.sortCompare w
  | .descending => w.sortCompare v

theorem compareKeys_eq (direction : Direction) (a b : Option Value) :
    compareKeys direction a b = compareNoneLast direction.compare (sortKey? a) (sortKey? b) := by
  unfold compareKeys
  cases sortKey? a with
  | none => cases sortKey? b <;> rfl
  | some v =>
    cases sortKey? b with
    | none => rfl
    | some w => cases direction <;> rfl

/-- The values that are compared among sort keys: those that do not belong to the end. -/
def Compared (key : Option Value → Prop) (v : Value) : Prop := key (some v) ∧ v.sortsLast = false

theorem sortKey?_eq_some_iff {a : Option Value} {v : Value} :
    sortKey? a = some v ↔ a = some v ∧ v.sortsLast = false := by
  unfold sortKey?
  rw [Option.filter_eq_some_iff]
  simp

/-- **Sort keys are in a total preorder if the values among them are.** -/
theorem compareKeys_preorderOn {key : Option Value → Prop}
    (h : PreorderOn Value.sortCompare (Compared key)) (direction : Direction) :
    PreorderOn (compareKeys direction) key := by
  have hdirection : PreorderOn direction.compare (Compared key) := by
    cases direction with
    | ascending => exact h
    | descending => exact h.flip
  have hkeys := (hdirection.noneLast.comap sortKey?).mono (T := key) (by
    intro a ha v hv
    obtain ⟨rfl, hlast⟩ := sortKey?_eq_some_iff.1 hv
    exact ⟨ha, hlast⟩)
  have heq : compareKeys direction =
      fun a b => compareNoneLast direction.compare (sortKey? a) (sortKey? b) := by
    funext a b
    exact compareKeys_eq direction a b
  rw [heq]
  exact hkeys

namespace Store

/-! ## Windows -/

/-- How often rows have been asked for makes no difference to them. -/
theorem matching_of_tables {q : BaseQuery} {s s' : Store} (h : s'.tables = s.tables) :
    matching q s' = matching q s := by
  unfold matching table?
  rw [h]

/-- What is found depends on the entity type and the conditions of a query. -/
theorem matching_congr {q q' : BaseQuery} (htype : q.entityType = q'.entityType)
    (hpredicates : q.predicates = q'.predicates) (s : Store) : s.matching q = s.matching q' := by
  unfold matching
  rw [htype, hpredicates]

/-- A window is a part of the matching rows in their order. -/
theorem window_eq {q : BaseQuery} {s : Store} {rows : List Entity} (h : s.matching q = .ok rows)
    (order : Option Order) (offset limit : Nat) :
    s.window q order offset limit =
      .ok ((((arrange order rows).drop offset).take limit).map (project q)) := by
  unfold window
  rw [h]
  rfl

theorem length_arrange (order : Option Order) (rows : List Entity) :
    (arrange order rows).length = rows.length := by
  cases order with
  | none => rfl
  | some order => exact length_sortBy _ rows

theorem arrange_perm (order : Option Order) (rows : List Entity) :
    (arrange order rows).Perm rows := by
  cases order with
  | none => exact List.Perm.refl rows
  | some order => exact sortBy_perm _ rows

/-- Rows are in a total preorder by a column if its values are. -/
theorem compareRows_preorderOn {order : Order} {rows : List Entity}
    (h : PreorderOn Value.sortCompare
      (Compared fun k => ∃ e ∈ rows, e.attribute? order.column = k)) :
    PreorderOn (compareRows order)
      fun e => ∃ e' ∈ rows, e'.attribute? order.column = e.attribute? order.column :=
  (compareKeys_preorderOn h order.direction).comap fun e : Entity => e.attribute? order.column

/-- A column sorts rows stably. -/
theorem arrange_stablySorted {order : Order} {rows : List Entity}
    (h : PreorderOn Value.sortCompare
      (Compared fun k => ∃ e ∈ rows, e.attribute? order.column = k)) :
    StablySorted (compareRows order) rows (arrange (some order) rows) :=
  sortBy_stablySorted (compareRows_preorderOn h) fun e he => ⟨e, he, rfl⟩

end Store

/-! ## Stores that may fail -/

/-- A store that answers what its tables say, or fails; it may count what it is asked for. -/
structure Backend.Reads (b : Backend Store) : Prop where
  bound {q : BaseQuery} {s : Store} {rows : List Entity} (h : s.matching q = .ok rows) :
    rows.length ≤ b.bound q s
  count {q : BaseQuery} {s : Store} {n : Nat} (h : b.count q s = .ok n) :
    ∃ rows, s.matching q = .ok rows ∧ n = rows.length
  fetch {q : BaseQuery} {order : Option Order} {offset limit : Nat} {s : Store} {es : List Entity}
    (h : (b.fetch q order offset limit s).1 = .ok es) : s.window q order offset limit = .ok es
  tables (q : BaseQuery) (order : Option Order) (offset limit : Nat) (s : Store) :
    (b.fetch q order offset limit s).2.tables = s.tables
  tables_ids (q : BaseQuery) (ids : List EntityId) (s : Store) :
    (b.fetchByIds q ids s).2.tables = s.tables

/-- A store that does not fail where there is a table. -/
structure Backend.Reliable (b : Backend Store) : Prop where
  count {q : BaseQuery} {s : Store} {rows : List Entity} (h : s.matching q = .ok rows) :
    ∃ n, b.count q s = .ok n
  fetch {q : BaseQuery} {s : Store} {rows : List Entity} (h : s.matching q = .ok rows)
    (order : Option Order) (offset limit : Nat) : ∃ es, (b.fetch q order offset limit s).1 = .ok es

namespace Store

theorem backend_reads : backend.Reads where
  bound {q s rows} h := by
    unfold matching at h
    show rows.length ≤ ((s.table? q.entityType).getD []).length
    cases htable : s.table? q.entityType with
    | none =>
      rw [htable] at h
      cases h
    | some table =>
      rw [htable] at h
      cases h
      exact List.length_filter_le _ table
  count {q s n} h := by
    change (s.matching q).map List.length = .ok n at h
    cases hrows : s.matching q with
    | error err =>
      rw [hrows] at h
      cases h
    | ok rows =>
      rw [hrows] at h
      cases h
      exact ⟨rows, rfl, rfl⟩
  fetch h := h
  tables _ _ _ _ _ := rfl
  tables_ids _ _ _ := rfl

theorem backend_reliable : backend.Reliable where
  count {q s rows} h := ⟨rows.length, by
    show (s.matching q).map List.length = _
    rw [h]
    rfl⟩
  fetch h order offset limit := ⟨_, window_eq h order offset limit⟩

end Store

namespace Listing

/-- **Windows of one size, one after the other, are all rows**, unless the store fails.  There is one
window more than full ones. -/
theorem loads_reads {b : Backend Store} (hb : b.Reads) {q : BaseQuery} (order : Option Order)
    {size : Nat} (hsize : 0 < size) {rows : List Entity} {k : Nat} {s : Store}
    (hrows : s.matching q = .ok rows) (hk : k ≤ rows.length) :
    ∃ n found s', n ≤ (rows.length - k) / size + 1 ∧
      Loads (fun offset => b.fetch q order offset size) size
        (((Store.arrange order rows).take k).map (Store.project q)) s n found s' ∧
      s'.tables = s.tables ∧
      (found = .ok ((Store.arrange order rows).map (Store.project q)) ∧
          n = (rows.length - k) / size + 1 ∨
        (∃ err, found = .error err) ∧ ¬ b.Reliable) := by
  induction hrest : rows.length - k using Nat.strongRecOn generalizing k s with
  | ind rest ih =>
  have hlength : (((Store.arrange order rows).take k).map (Store.project q)).length = k := by
    rw [List.length_map, List.length_take, Store.length_arrange, Nat.min_eq_left hk]
  -- `k` rows have been loaded; the next window starts behind them
  cases hask : b.fetch q order k size s with
  | mk answer s₁ =>
    have htables : s₁.tables = s.tables := by
      rw [← hb.tables q order k size s, hask]
    have hnext : b.fetch q order (((Store.arrange order rows).take k).map (Store.project q)).length
        size s = (answer, s₁) := by
      rw [hlength, hask]
    cases answer with
    | error err =>
      refine ⟨1, .error err, s₁, Nat.le_add_left _ _, .failed hnext, htables, .inr ⟨⟨err, rfl⟩, ?_⟩⟩
      intro h
      obtain ⟨es, hes⟩ := h.fetch hrows order k size
      rw [hask] at hes
      cases hes
    | ok window =>
      have hwindow : window = (((Store.arrange order rows).drop k).take size).map (Store.project q) := by
        have hread := hb.fetch (congrArg Prod.fst hask)
        rw [Store.window_eq hrows] at hread
        exact (Except.ok.inj hread).symm
      have hfilled : window.length = min size rest := by
        rw [hwindow, List.length_map, List.length_take, List.length_drop, Store.length_arrange, hrest]
      have happend : ((Store.arrange order rows).take k).map (Store.project q) ++ window =
          ((Store.arrange order rows).take (k + size)).map (Store.project q) := by
        rw [hwindow, ← List.map_append, List.take_add]
      rcases Nat.lt_or_ge rest size with hshort | hfull
      · have hall : ((Store.arrange order rows).take k).map (Store.project q) ++ window =
            (Store.arrange order rows).map (Store.project q) := by
          rw [happend, List.take_of_length_le (by rw [Store.length_arrange]; omega)]
        rw [Nat.div_eq_of_lt hshort]
        refine ⟨1, .ok (_ ++ window), s₁, Nat.le_refl _, .last hnext ?_, htables,
          .inl ⟨congrArg Except.ok hall, rfl⟩⟩
        omega
      · obtain ⟨n, found, s', hn, hloads, htables', hfound⟩ := ih (rest - size) (by omega)
          (k := k + size) (s := s₁) ((Store.matching_of_tables htables).trans hrows) (by omega) (by omega)
        have hcount : rest / size = (rest - size) / size + 1 := Nat.div_eq_sub_div hsize hfull
        rw [← happend] at hloads
        refine ⟨n + 1, found, s', by omega, .more hnext (by omega) hloads, htables'.trans htables, ?_⟩
        rcases hfound with ⟨hok, hexact⟩ | hfailed
        · exact .inl ⟨hok, by omega⟩
        · exact .inr hfailed

variable {σ : Type} {l : Listing σ Store} {q : BaseQuery} {s : ListingState σ Store}
  {rows : List Entity}

/-- **All matching rows are loaded, in the order that is asked for**, unless the store fails. -/
theorem fetchAll_reads (hb : l.backend.Reads) (hrows : s.store.matching q = .ok rows)
    (order : Option Order) :
    (l.fetchAll q order s).2.store.tables = s.store.tables ∧
      ((l.fetchAll q order s).1 =
          .ok ((Store.arrange order rows).map fun e => { entity := Store.project q e }) ∨
        (∃ err, (l.fetchAll q order s).1 = .error (.store err)) ∧ ¬ l.backend.Reliable) := by
  obtain ⟨n, found, store, hn, hloads, htables, hfound⟩ :=
    loads_reads hb order l.windowSize_pos hrows (Nat.zero_le _)
  have hbound := Nat.div_le_div_right (c := l.windowSize) (hb.bound hrows)
  rw [Nat.sub_zero] at hn
  rw [hloads.fetchAll_eq (by omega)]
  refine ⟨htables, ?_⟩
  rcases hfound with ⟨rfl, -⟩ | ⟨⟨err, rfl⟩, hnot⟩
  · left
    dsimp only [Except.map, Except.mapError]
    rw [List.map_map]
    rfl
  · exact .inr ⟨⟨err, rfl⟩, hnot⟩

/-- **All matching rows are loaded, in the order that is asked for.** -/
theorem fetchAll_eq (hbackend : l.backend = Store.backend) (hrows : s.store.matching q = .ok rows)
    (order : Option Order) :
    ∃ store : Store, store.tables = s.store.tables ∧
      l.fetchAll q order s =
        (.ok ((Store.arrange order rows).map fun e => { entity := Store.project q e }),
          { s with store := store }) := by
  obtain ⟨htables, hfound⟩ := fetchAll_reads (hbackend ▸ Store.backend_reads) hrows order
  have hloaded := hfound.resolve_right fun h => h.2 (hbackend ▸ Store.backend_reliable)
  refine ⟨_, htables, Prod.ext hloaded ?_⟩
  unfold fetchAll
  dsimp only
  split <;> rfl

end Listing

end FieldQuery

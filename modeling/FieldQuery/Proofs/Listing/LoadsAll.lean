import FieldQuery.Proofs.Store.Windows
import FieldQuery.Proofs.Value.SortOrder

/-!
# All rows at once, and window by window

* `Store.everything` — the matching rows in their order, which is what a window without a limit shows;
* `Store.Arranged` — rows in the order that is asked for, `Store.Sortable` — rows for which there is one
  such order;
* `Store.loads_everything` — the loop over the windows of tables in memory ends, with the same rows;
* `Listing.LoadsAll` — what it means that a loop has loaded all rows.

Principal results: `fetchAll_unlimited` — loading window by window loads all rows, in the order of one
window without a limit.
-/

namespace FieldQuery

namespace Store

/-- The rows that a query finds, as it loads them, in the order that is asked for. -/
def everything (q : BaseQuery) (order : Option Order) (s : Store) : Except StoreError (List Entity) :=
  (s.matching q).map fun rows => (arrange order rows).map (project q)

theorem everything_eq {q : BaseQuery} {s : Store} {rows : List Entity} (h : s.matching q = .ok rows)
    (order : Option Order) : s.everything q order = .ok ((arrange order rows).map (project q)) := by
  unfold everything
  rw [h]
  rfl

/-- Without a table there is nothing to show. -/
theorem everything_error {q : BaseQuery} {s : Store} {err : StoreError} (h : s.matching q = .error err)
    (order : Option Order) : s.everything q order = .error err := by
  unfold everything
  rw [h]
  rfl

/-- Without a table there are no windows. -/
theorem window_error {q : BaseQuery} {s : Store} {err : StoreError} (h : s.matching q = .error err)
    (order : Option Order) (offset limit : Nat) : s.window q order offset limit = .error err := by
  unfold window
  rw [h]
  rfl

/-- No more rows match than a limit admits. -/
def Fits (q : BaseQuery) (limit : Nat) (s : Store) : Prop :=
  ∀ rows, s.matching q = .ok rows → rows.length ≤ limit

/-- A window from the first row on whose limit cuts nothing off shows everything. -/
theorem window_unlimited {q : BaseQuery} {limit : Nat} {s : Store} (order : Option Order)
    (h : s.Fits q limit) : s.window q order 0 limit = s.everything q order := by
  cases hrows : s.matching q with
  | error err => rw [window_error hrows, everything_error hrows]
  | ok rows =>
    have hlength : (arrange order rows).length ≤ limit := by
      rw [length_arrange]
      exact h rows hrows
    rw [window_eq hrows, everything_eq hrows, List.drop_zero, List.take_of_length_le hlength]

/-- Rows in the order that is asked for: sorted stably by a column, or as they are. -/
def Arranged (order : Option Order) (rows arranged : List Entity) : Prop :=
  match order with
  | some order => StablySorted (compareRows order) rows arranged
  | none => arranged = rows

/-- The values of the column that is asked for, as far as they are compared, are in a total preorder. -/
def Sortable (order : Option Order) (rows : List Entity) : Prop :=
  ∀ o, order = some o →
    PreorderOn Value.sortCompare (Compared fun k => ∃ e ∈ rows, e.attribute? o.column = k)

/-- **Rows can be arranged in one way.** -/
theorem arranged_iff {order : Option Order} {rows : List Entity} (h : Sortable order rows)
    (arranged : List Entity) : Arranged order rows arranged ↔ arranged = arrange order rows := by
  cases order with
  | none => exact Iff.rfl
  | some o =>
    have hsorted := arrange_stablySorted (h o rfl)
    constructor
    · intro harranged
      exact StablySorted.unique (compareRows_preorderOn (h o rfl)) (fun e he => ⟨e, he, rfl⟩) harranged
        hsorted
    · rintro rfl
      exact hsorted

/-- **The loop over the windows of tables in memory ends with everything.**  It takes one window more
than there are full ones, as many as the store counts. -/
theorem loads_everything (q : BaseQuery) (order : Option Order) {size : Nat} (hsize : 0 < size)
    (s : Store) :
    ∃ n, n ≤ backend.bound q s / size + 1 ∧
      Listing.Loads (fun offset => backend.fetch q order offset size) size [] s n
        (s.everything q order) { s with fetches := s.fetches + n } ∧
      ∀ rows, s.matching q = .ok rows → n = rows.length / size + 1 := by
  cases hrows : s.matching q with
  | error err =>
    have hask : backend.fetch q order 0 size s = (.error err, { s with fetches := s.fetches + 1 }) :=
      Prod.ext (window_error hrows order 0 size) rfl
    rw [everything_error hrows]
    exact ⟨1, Nat.le_add_left _ _, .failed hask, fun rows h => by cases h⟩
  | ok rows =>
    obtain ⟨n, found, s', -, hloads, -, hfound⟩ :=
      Listing.loads_reads backend_reads order hsize hrows (Nat.zero_le _)
    obtain ⟨rfl, rfl⟩ := hfound.resolve_right fun h => h.2 backend_reliable
    obtain rfl := hloads.fetched fun _ _ => rfl
    have hbound := Nat.div_le_div_right (c := size) (backend_reads.bound hrows)
    rw [Nat.sub_zero] at hloads
    rw [everything_eq hrows]
    refine ⟨rows.length / size + 1, by omega, hloads, ?_⟩
    rintro _ ⟨⟩
    rfl

end Store

namespace Listing

variable {σ : Type}

/-- A loop over windows has loaded all rows that a query finds. -/
structure LoadsAll (l : Listing σ Store) (q : BaseQuery) (order : Option Order)
    (s : ListingState σ Store) (n : Nat) (found : Except StoreError (List Entity)) : Prop where
  /-- The loop ends, and in one way only; the store counts its windows, and is left alone otherwise. -/
  ends : ∀ n' found' store,
    Loads (fun offset => l.backend.fetch q order offset l.windowSize) l.windowSize [] s.store n' found'
      store ↔ n' = n ∧ found' = found ∧ store = { s.store with fetches := s.store.fetches + n }
  /-- It comes to what one window without a limit shows. -/
  unlimited : ∀ limit, s.store.Fits q limit → (l.backend.fetch q order 0 limit s.store).1 = found
  /-- These rows, or this error, are what the listing goes on with. -/
  loaded : l.fetchAll q order s = ((found.map fun es => es.map fun e => { entity := e }).mapError .store,
    { s with store := { s.store with fetches := s.store.fetches + n } })
  /-- Each matching row is among them once, in the only order there is; the last window is not full,
  and all others are. -/
  rows : ∀ rows, s.store.matching q = .ok rows → n = rows.length / l.windowSize + 1 ∧
    ∃ arranged, found = .ok (arranged.map (Store.project q)) ∧ arranged.Perm rows ∧
      ∀ ys, Store.Arranged order rows ys ↔ ys = arranged

/-- **Rows that are loaded window by window are those of one window without a limit.**  The loop ends, for
all tables, queries and sizes of windows, and each row is loaded once, in the same order; how many rows
the store counts before makes no difference. -/
theorem fetchAll_unlimited {l : Listing σ Store} {count : BaseQuery → Store → Except StoreError Nat}
    (hbackend : l.backend = { Store.backend with count := count }) (q : BaseQuery)
    (order : Option Order) (s : ListingState σ Store)
    (horder : ∀ rows, s.store.matching q = .ok rows → Store.Sortable order rows) :
    ∃ n found, l.LoadsAll q order s n found := by
  have hfetch : l.backend.fetch = Store.backend.fetch := by rw [hbackend]
  have hbound : l.backend.bound = Store.backend.bound := by rw [hbackend]
  obtain ⟨n, hn, hloads, hcount⟩ := Store.loads_everything q order l.windowSize_pos s.store
  rw [← hfetch] at hloads
  rw [← hbound] at hn
  refine ⟨n, s.store.everything q order, ?_, ?_, hloads.fetchAll_eq hn, ?_⟩
  · intro n' found' store
    constructor
    · exact hloads.unique
    · rintro ⟨rfl, rfl, rfl⟩
      exact hloads
  · intro limit hlimit
    rw [hfetch]
    exact Store.window_unlimited order hlimit
  · intro rows hrows
    exact ⟨hcount rows hrows, Store.arrange order rows, Store.everything_eq hrows order,
      Store.arrange_perm order rows, Store.arranged_iff (horder rows hrows)⟩

section Members

/-- A member with an age. -/
def member (id : Int64) (age : Value) : Entity := .mk "member" (.int id) [("age", age)] []

/-- Four members: two of one age, and one whose age is not known. -/
def members : List Entity := [member 1 (.int 30), member 2 .null, member 3 (.int 25), member 4 (.int 30)]

/-- A listing that loads two rows at a time, over a store that counts no rows. -/
def byTwos : Listing Unit Store where
  engine := { catalog := {}, settings := { batchSize := 2 }, digest := id }
  settings := { computation := { batchSize := 2 } }
  backend := { Store.backend with count := fun _ _ => .ok 0 }

/-- The store with the members. -/
def membersState : ListingState Unit Store where
  engine := { cache := () }
  store := { tables := [("member", members)] }

/-- Ages that are known are integers. -/
theorem members_sortable : Store.Sortable (some ⟨"age", .descending⟩) members := by
  rintro _ ⟨⟩
  have hages : members.all (fun e => (e.attribute? "age").all fun v => v.sortsLast || v.int?.isSome) =
      true := by
    decide +kernel
  have hfree : ¬ Value.Conflict (fun _ => True) (fun _ => False) := by
    rintro ⟨_, _, _, _, _, hfalse, _⟩
    exact hfalse
  refine (Value.sortCompare_preorderOn hfree).mono fun v hv => ?_
  obtain ⟨⟨e, he, hage⟩, hlast⟩ := hv
  have hknown := List.all_eq_true.1 hages e he
  rw [hage, Option.all_some, hlast, Bool.false_or] at hknown
  cases v with
  | int n => trivial
  | _ => exact absurd hknown Bool.false_ne_true

/-- Two full windows and an empty one: from the oldest member on, members of one age as they were added,
and last the one whose age is not known. -/
theorem fetchAll_unlimited_members :
    byTwos.backend = { Store.backend with count := fun _ _ => .ok 0 } ∧
    (∀ rows, membersState.store.matching { entityType := "member" } = .ok rows →
      Store.Sortable (some ⟨"age", .descending⟩) rows) ∧
    ∃ es, byTwos.LoadsAll { entityType := "member" } (some ⟨"age", .descending⟩) membersState 3 (.ok es) ∧
      es.map (·.id) = [.int 1, .int 4, .int 3, .int 2] := by
  have hmatching : membersState.store.matching { entityType := "member" } = .ok members := by
    with_unfolding_all rfl
  have horder : ∀ rows, membersState.store.matching { entityType := "member" } = .ok rows →
      Store.Sortable (some ⟨"age", .descending⟩) rows := by
    intro rows hrows
    obtain rfl := Except.ok.inj (hmatching.symm.trans hrows)
    exact members_sortable
  refine ⟨rfl, horder, ?_⟩
  obtain ⟨n, found, hloads⟩ := fetchAll_unlimited (l := byTwos) rfl { entityType := "member" }
    (some ⟨"age", .descending⟩) membersState horder
  obtain ⟨hn, -⟩ := hloads.rows members hmatching
  have hthree : members.length / byTwos.windowSize + 1 = 3 := by decide
  have hfits : membersState.store.Fits { entityType := "member" } 4 := by
    intro rows hrows
    obtain rfl := Except.ok.inj (hmatching.symm.trans hrows)
    decide
  have hwindow : (byTwos.backend.fetch { entityType := "member" } (some ⟨"age", .descending⟩) 0 4
      membersState.store).1.toOption.map (fun es => es.map (·.id)) =
        some [.int 1, .int 4, .int 3, .int 2] := by
    decide +kernel
  rw [hloads.unlimited 4 hfits] at hwindow
  rw [hn, hthree] at hloads
  cases found with
  | error err => cases hwindow
  | ok es => exact ⟨es, hloads, Option.some.inj hwindow⟩

end Members

end Listing

end FieldQuery

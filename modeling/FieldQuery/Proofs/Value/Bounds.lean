import FieldQuery.Proofs.Request.Clause
import FieldQuery.Proofs.Time.TextOrder
import FieldQuery.Proofs.Value.SortOrder
import FieldQuery.Query.Predicate

/-!
# Bounds and the order that sorting uses

Filters compare by `compare?`, sorting by `sortCompare`. A value that is sorted after another one
satisfies the lower bounds of that one, and the other one its upper bounds, where the two orders
agree. Numbers agree with every bound as long as no two different integers, the bound among them,
are rounded to one decimal. Instants are another matter: for a filter a text that writes an instant
is that instant, for sorting it is a text.

* `Value.IsBound` — what texts are read as for columns of ordered types;
* `Value.AgreesOn` — two values in order satisfy a bound as they should;
* `Value.InOrder` — the instants for which two values stand are in order;
* `Value.DatedAs` — a value is an instant, or a text in one form at universal time.

Principal results: `agreesOn_iff_inOrder`, `inOrder_of_datedAs`.
-/

namespace FieldQuery

/-! ## Sizes of numbers -/

namespace Binary64

/-- The total order only splits the two zeros. -/
theorem signedMagnitude_mono {x y : Binary64} (h : x.orderKey ≤ y.orderKey) :
    x.signedMagnitude ≤ y.signedMagnitude := by
  obtain ⟨sx, mx, hx⟩ := x
  obtain ⟨sy, my, hy⟩ := y
  unfold orderKey at h
  unfold signedMagnitude
  cases sx <;> cases sy <;>
    simp only [if_true, Bool.false_eq_true, if_false] at h ⊢ <;>
    omega

theorem signedMagnitude_ofInt_mono {m n : Int} (h : m ≤ n) :
    (ofInt m).signedMagnitude ≤ (ofInt n).signedMagnitude :=
  signedMagnitude_mono (orderKey_ofInt_mono h)

/-- Apart from the zeros, numbers of one size are one number. -/
theorem eq_of_signedMagnitude {x y : Binary64} (h : x.signedMagnitude = y.signedMagnitude)
    (hne : x.signedMagnitude ≠ 0) : x = y := by
  obtain ⟨sx, mx, hx⟩ := x
  obtain ⟨sy, my, hy⟩ := y
  unfold signedMagnitude at h hne
  cases sx <;> cases sy <;>
    simp only [if_true, Bool.false_eq_true, if_false, Binary64.mk.injEq, true_and, false_and,
      reduceCtorEq] at h hne ⊢ <;>
    omega

/-- No other integer is rounded to zero. -/
theorem eq_zero_of_signedMagnitude {n : Int} (h : (ofInt n).signedMagnitude = 0) : n = 0 := by
  have hone : (ofInt 1).orderKey = 0x3FF0000000000000 := by decide +kernel
  have hminus : (ofInt (-1)).orderKey = -0x3FF0000000000000 - 1 := by decide +kernel
  have hkey : (ofInt n).orderKey = 0 ∨ (ofInt n).orderKey = -1 := by
    unfold signedMagnitude at h
    unfold orderKey
    split at h
    · rename_i hneg
      rw [if_pos hneg]
      omega
    · rename_i hneg
      rw [if_neg hneg]
      omega
  by_contra hne
  rcases Int.lt_or_gt_of_ne hne with hlt | hgt
  · have := orderKey_ofInt_mono (show n ≤ -1 by omega)
    omega
  · have := orderKey_ofInt_mono (show 1 ≤ n by omega)
    omega

end Binary64

namespace Value

/-- What texts are read as for columns of ordered types. -/
def IsBound : Value → Prop
  | .int _ => True
  | .decimal _ => True
  | .instant _ => True
  | _ => False

theorem isBound_coerce? {s : FilterSettings} {t : FieldType}
    (ht : t = .integer ∨ t = .decimal ∨ t = .datetime) {raw : String}
    {enumValues : Option (List String)} {x : Value} (h : s.coerce? t raw enumValues = some x) :
    x.IsBound := by
  cases FilterSettings.hasType_of_coerce? h with
  | integer | decimal | datetime => trivial
  | string | text | boolean | enumeration => simp at ht

/-- The second value satisfies the lower bound `x` if the first does, and the first the upper bound
if the second does. -/
def AgreesOn (x v w : Value) : Prop :=
  (Operator.gte.holds (some v) (.single x) = true → Operator.gte.holds (some w) (.single x) = true) ∧
    (Operator.lte.holds (some w) (.single x) = true → Operator.lte.holds (some v) (.single x) = true)

section Comparable

variable {v w x : Value} {o o' : Ordering}

theorem holdsOf_of_compare (op : Operator) (h : v.compare? x = some o) :
    op.holds (some v) (.single x) = op.holdsOf v (.single x) := by
  cases v with
  | null => cases h
  | _ => rfl

theorem gte_iff (h : v.compare? x = some o) :
    Operator.gte.holds (some v) (.single x) = true ↔ o ≠ .lt := by
  rw [holdsOf_of_compare _ h]
  change (v.isAbove x || v.sameAs x) = true ↔ _
  unfold isAbove sameAs
  rw [h]
  cases o <;> decide

theorem lte_iff (h : v.compare? x = some o) :
    Operator.lte.holds (some v) (.single x) = true ↔ o ≠ .gt := by
  rw [holdsOf_of_compare _ h]
  change (v.isBelow x || v.sameAs x) = true ↔ _
  unfold isBelow sameAs
  rw [h]
  cases o <;> decide

theorem agreesOn_iff (hv : v.compare? x = some o) (hw : w.compare? x = some o') :
    AgreesOn x v w ↔ (o ≠ .lt → o' ≠ .lt) ∧ (o' ≠ .gt → o ≠ .gt) := by
  unfold AgreesOn
  rw [gte_iff hv, gte_iff hw, lte_iff hw, lte_iff hv]

end Comparable

/-! ## Numbers -/

section Numbers

variable {ints : Int64 → Prop} {decimals : Binary64 → Prop} {v w x : Value}

/-- The size of a number, an integer rounded. -/
def magnitude : Value → Int
  | .int n => (Binary64.ofInt n.toInt).signedMagnitude
  | .decimal x => x.signedMagnitude
  | _ => 0

/-- Two integers are compared exactly, other numbers by their sizes. -/
theorem compare?_numbers (hv : rank v = 1) (hx : rank x = 1) :
    (∃ m n, v = .int m ∧ x = .int n ∧ v.compare? x = some (compare m.toInt n.toInt)) ∨
      (∀ m n, ¬ (v = .int m ∧ x = .int n)) ∧
        v.compare? x = some (compare v.magnitude x.magnitude) := by
  rcases number_of_rank hv with ⟨m, rfl⟩ | ⟨a, rfl, ha⟩ <;>
    rcases number_of_rank hx with ⟨n, rfl⟩ | ⟨b, rfl, hb⟩
  · exact .inl ⟨m, n, rfl, rfl, rfl⟩
  all_goals
    refine .inr ⟨by simp, ?_⟩
    simp only [compare?, Binary64.compare?, Binary64.isNaN_ofInt, magnitude, *, Bool.or_self,
      Bool.false_eq_true, if_false]

/-- Numbers in the order of sorting are in the order of their sizes. -/
theorem magnitude_le (hv : rank v = 1) (hw : rank w = 1) (hle : v.sortCompare w ≠ .gt) :
    v.magnitude ≤ w.magnitude := by
  rcases number_of_rank hv with ⟨m, rfl⟩ | ⟨a, rfl, ha⟩ <;>
    rcases number_of_rank hw with ⟨n, rfl⟩ | ⟨b, rfl, hb⟩
  · exact Binary64.signedMagnitude_ofInt_mono (Int.compare_ne_gt.1 hle)
  · rw [sortCompare_int_decimal hb] at hle
    exact Binary64.signedMagnitude_mono (Int.compare_ne_gt.1 hle)
  · rw [sortCompare_decimal_int ha] at hle
    exact Binary64.signedMagnitude_mono (Int.compare_ne_gt.1 hle)
  · rw [sortCompare_decimal_decimal ha hb] at hle
    exact Binary64.signedMagnitude_mono (Int.compare_ne_gt.1 hle)

/-- Without a conflict, integers of the size of one decimal are equal. -/
theorem eq_of_magnitude (hfree : ¬ Conflict ints decimals) {i j : Int64} {y : Binary64}
    (hi : ints i) (hj : ints j) (hy : decimals y)
    (hiy : (Binary64.ofInt i.toInt).signedMagnitude = y.signedMagnitude)
    (hjy : (Binary64.ofInt j.toInt).signedMagnitude = y.signedMagnitude) : i.toInt = j.toInt := by
  by_cases hzero : y.signedMagnitude = 0
  · rw [Binary64.eq_zero_of_signedMagnitude (hiy.trans hzero),
      Binary64.eq_zero_of_signedMagnitude (hjy.trans hzero)]
  · have hix := Binary64.eq_of_signedMagnitude hiy (by rwa [hiy])
    have hjx := Binary64.eq_of_signedMagnitude hjy (by rwa [hjy])
    by_contra hne
    exact hfree ⟨i, j, y, hi, hj, hy, fun h => hne (by rw [h]), hix, hjx⟩

/-- A number that is not compared exactly with an integer is a decimal. -/
theorem decimal_of_rank {k : Int64} (hv : rank v = 1) (h : ∀ m n, ¬ (v = .int m ∧ int k = .int n)) :
    ∃ y, v = .decimal y := by
  rcases number_of_rank hv with ⟨m, rfl⟩ | ⟨y, rfl, -⟩
  · exact absurd ⟨rfl, rfl⟩ (h m k)
  · exact ⟨y, rfl⟩

/-- **Numbers agree with every bound.** Where the bound and one of the values are integers and the
other value is a decimal, the exact comparison has to follow from rounded ones. -/
theorem agreesOn_numbers (hfree : ¬ Conflict ints decimals) (hv : v.Within ints decimals)
    (hw : w.Within ints decimals) (hx : x.Within ints decimals) (rv : rank v = 1)
    (rw' : rank w = 1) (rx : rank x = 1) (hle : v.sortCompare w ≠ .gt) : AgreesOn x v w := by
  have hsize := magnitude_le rv rw' hle
  rcases compare?_numbers rv rx with ⟨i, k, rfl, rfl, hvx⟩ | ⟨hvx', hvx⟩ <;>
    rcases compare?_numbers rw' rx with ⟨j, k', rfl, hk, hwx⟩ | ⟨hwx', hwx⟩ <;>
    rw [agreesOn_iff hvx hwx] <;>
    simp only [Int.compare_ne_lt, Int.compare_ne_gt]
  · cases hk
    have hij : i.toInt ≤ j.toInt := Int.compare_ne_gt.1 hle
    omega
  · obtain ⟨y, rfl⟩ := decimal_of_rank rw' hwx'
    constructor
    · intro hki
      exact Int.le_trans (Binary64.signedMagnitude_ofInt_mono hki) hsize
    · intro hyk
      by_contra hlt
      have hround := Binary64.signedMagnitude_ofInt_mono (show k.toInt ≤ i.toInt by omega)
      simp only [magnitude] at hsize hyk
      have := eq_of_magnitude hfree hv hx hw (by omega) (by omega)
      omega
  · subst hk
    obtain ⟨y, rfl⟩ := decimal_of_rank rv hvx'
    constructor
    · intro hky
      by_contra hlt
      have hround := Binary64.signedMagnitude_ofInt_mono (show j.toInt ≤ k'.toInt by omega)
      simp only [magnitude] at hsize hky
      have := eq_of_magnitude hfree hw hx hv (by omega) (by omega)
      omega
    · intro hjk
      exact Int.le_trans hsize (Binary64.signedMagnitude_ofInt_mono hjk)
  · omega

end Numbers

/-! ## Instants -/

/-- The instant for which a value stands. -/
def instant? : Value → Option Instant
  | .instant t => some t
  | .text s => Time.readStrict? s.toList
  | _ => none

/-- The instants for which two values stand, if both do, are in order. -/
def InOrder (v w : Value) : Prop :=
  ∀ t u, v.instant? = some t → w.instant? = some u → Instant.compare t u ≠ .gt

/-- How a column writes its instants: not as texts, or as texts of some length at universal time. -/
def DatedAs (layout : Option Nat) (v : Value) : Prop :=
  match layout, v with
  | none, .instant _ => True
  | some length, .text s => Time.Zulu length s.toList
  | _, _ => False

section Instants

variable {v w x : Value} {t u : Instant}

/-- What stands for an instant is compared as one. -/
theorem compare?_instant (v : Value) (t : Instant) :
    v.compare? (.instant t) = v.instant?.map fun u => Instant.compare u t := by
  cases v with
  | text s =>
    change ((Time.readStrict? s.toList).map (Instant.compare t)).map Ordering.swap =
      (Time.readStrict? s.toList).map fun u => Instant.compare u t
    rw [Option.map_map]
    refine congrArg (Option.map · _) ?_
    funext u
    exact (@Std.OrientedCmp.eq_swap _ Instant.compare _ u t).symm
  | _ => rfl

/-- A bound that is compared with a value is a number and so is the value, or it is an instant. -/
theorem rank_of_compare? (hx : x.IsBound) (h : (v.compare? x).isSome = true) :
    rank v = 1 ∧ rank x = 1 ∨ ∃ t, x = .instant t := by
  cases x with
  | int n =>
    left
    cases v with
    | int m => exact ⟨rfl, rfl⟩
    | decimal a =>
      have hnumber := (Binary64.compare?_isSome.1 h).1
      simp [rank, hnumber]
    | _ => cases h
  | decimal b =>
    left
    cases v with
    | int m =>
      have hnumber := (Binary64.compare?_isSome.1 h).2
      simp [rank, hnumber]
    | decimal a =>
      have hnumber := Binary64.compare?_isSome.1 h
      simp [rank, hnumber]
    | _ => cases h
  | instant t => exact .inr ⟨t, rfl⟩
  | null => cases hx
  | bool _ => cases hx
  | text _ => cases hx
  | list _ => cases hx

/-- Instants in order agree with every instant. -/
theorem agreesOn_instant (hv : v.instant? = some t) (hw : w.instant? = some u) (b : Instant) :
    AgreesOn (.instant b) v w ↔ (Instant.compare t b ≠ .lt → Instant.compare u b ≠ .lt) ∧
      (Instant.compare u b ≠ .gt → Instant.compare t b ≠ .gt) := by
  refine agreesOn_iff ?_ ?_
  · rw [compare?_instant, hv]
    rfl
  · rw [compare?_instant, hw]
    rfl

/-- **Where sorting and filters agree.** Of two values in the order of sorting, without a conflict of
integers and decimals, the one agrees with the other on every bound to which both compare exactly if
the instants for which they stand are in order. -/
theorem agreesOn_iff_inOrder {ints : Int64 → Prop} {decimals : Binary64 → Prop}
    (hfree : ¬ Conflict ints decimals) (hv : v.Within ints decimals) (hw : w.Within ints decimals)
    (hle : (∃ x, (v.compare? x).isSome = true) → (∃ x, (w.compare? x).isSome = true) →
      v.sortCompare w ≠ .gt) :
    (∀ x, x.IsBound → x.Within ints decimals → (v.compare? x).isSome = true →
      (w.compare? x).isSome = true → AgreesOn x v w) ↔ InOrder v w := by
  constructor
  · intro h t u ht hu
    have hcomparable : ∀ {y : Value} {b : Instant}, y.instant? = some b →
        (y.compare? (.instant t)).isSome = true := by
      intro y b hy
      rw [compare?_instant, hy]
      rfl
    have hagrees := (agreesOn_instant ht hu t).1
      (h (.instant t) trivial trivial (hcomparable ht) (hcomparable hu))
    have hself : Instant.compare t t = .eq := @Std.ReflCmp.compare_self _ Instant.compare _ t
    have hge : Instant.compare u t ≠ .lt := hagrees.1 (by rw [hself]; decide)
    rw [@Std.OrientedCmp.eq_swap _ Instant.compare _ t u]
    cases hcompare : Instant.compare u t with
    | lt => exact absurd hcompare hge
    | eq => decide
    | gt => decide
  · intro h x hx hwithin hvx hwx
    rcases rank_of_compare? hx hvx with ⟨rv, rx⟩ | ⟨b, rfl⟩
    · rcases rank_of_compare? hx hwx with ⟨rw', -⟩ | ⟨b, rfl⟩
      · exact agreesOn_numbers hfree hv hw hwithin rv rw' rx (hle ⟨x, hvx⟩ ⟨x, hwx⟩)
      · cases rx
    · rw [compare?_instant, Option.isSome_map] at hvx hwx
      obtain ⟨t, ht⟩ := Option.isSome_iff_exists.1 hvx
      obtain ⟨u, hu⟩ := Option.isSome_iff_exists.1 hwx
      have htu := Ordering.ne_gt_iff_isLE.1 (h t u ht hu)
      rw [agreesOn_instant ht hu]
      constructor
      · intro hge
        have hut : (Instant.compare u t).isGE = true := by
          rw [@Std.OrientedCmp.eq_swap _ Instant.compare _ u t, Ordering.isGE_swap]
          exact htu
        exact Ordering.ne_lt_iff_isGE.2
          (Std.TransCmp.isGE_trans hut (Ordering.ne_lt_iff_isGE.1 hge))
      · intro hle
        exact Ordering.ne_gt_iff_isLE.2
          (Std.TransCmp.isLE_trans htu (Ordering.ne_gt_iff_isLE.1 hle))

/-- **Instants that are written in one way are sorted as instants.** -/
theorem inOrder_of_datedAs {layout : Option Nat} (hv : v.DatedAs layout) (hw : w.DatedAs layout)
    (hle : v.sortCompare w ≠ .gt) : InOrder v w := by
  intro t u ht hu
  cases layout with
  | none =>
    cases v with
    | instant a =>
      cases w with
      | instant b =>
        cases ht
        cases hu
        exact hle
      | _ => cases hw
    | _ => cases hv
  | some length =>
    cases v with
    | text a =>
      cases w with
      | text b => exact Time.compare_of_zulu hv hw ht hu hle
      | _ => cases hw
    | _ => cases hv

end Instants

end Value

end FieldQuery

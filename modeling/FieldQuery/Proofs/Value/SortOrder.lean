import FieldQuery.Proofs.Data.Preorder
import FieldQuery.Proofs.Number.Rounding
import FieldQuery.Value.Basic

/-!
# The order that sorting uses

`sortCompare` is reflexive, and turns around with its arguments, on all values.  It is transitive
only where integers and decimals get along: two integers are compared exactly, but each of them is
rounded to the nearest decimal first when it meets one, so that two different integers can both
equal a decimal that lies between nothing.

* `Within` — the values whose integers and decimals, at any depth, are of given kinds;
* `Conflict` — two different integers of the kind that are rounded to one decimal of the kind;
* `sortCompare_chain` — the chain law of three values from which `Conflict` is kept away, by
  induction on the first value; lists are compared item by item, which is why the law is stated
  for chains.

Principal results: `sortCompare_preorderOn_iff` — the laws of a total preorder hold on such a kind of
values exactly if there is no `Conflict`; `sortCompare_not_transitive` — three values for which they
fail.
-/

namespace FieldQuery

/-! ## Instants -/

instance : Ord Date := ⟨Date.compare⟩

instance : Std.TransOrd Date :=
  inferInstanceAs (Std.TransCmp
    (compareLex (compareOn Date.year) (compareLex (compareOn Date.month) (compareOn Date.day))))

instance : Std.TransCmp Instant.compare :=
  inferInstanceAs (Std.TransCmp
    (compareLex (compareOn Instant.date)
      (compareLex (compareOn Instant.second) (compareOn Instant.nanos))))

namespace Value

/-! ## Kinds of values -/

mutual

/-- Whether all integers and decimals of a value, at any depth, are of the given kinds. -/
def Within (ints : Int64 → Prop) (decimals : Binary64 → Prop) : Value → Prop
  | .int n => ints n
  | .decimal x => decimals x
  | .list items => WithinAll ints decimals items
  | .null => True
  | .bool _ => True
  | .text _ => True
  | .instant _ => True

/-- Whether all values of a list are such values. -/
def WithinAll (ints : Int64 → Prop) (decimals : Binary64 → Prop) : List Value → Prop
  | [] => True
  | v :: vs => Within ints decimals v ∧ WithinAll ints decimals vs

end

/-- Two different integers that are rounded to one decimal. -/
def Conflict (ints : Int64 → Prop) (decimals : Binary64 → Prop) : Prop :=
  ∃ i j x, ints i ∧ ints j ∧ decimals x ∧ i ≠ j ∧
    Binary64.ofInt i.toInt = x ∧ Binary64.ofInt j.toInt = x

/-! ## One and two values -/

mutual

theorem sortCompare_self (v : Value) : sortCompare v v = .eq := by
  match v with
  | .null => rfl
  | .bool b => exact Std.ReflOrd.compare_self
  | .int n => exact Std.ReflOrd.compare_self
  | .decimal x =>
    unfold sortCompare
    split
    · exact Std.ReflOrd.compare_self
    · exact Binary64.totalCompare_eq_eq_iff.2 rfl
  | .text s => exact Std.ReflOrd.compare_self
  | .instant t => exact @Std.ReflCmp.compare_self _ Instant.compare _ t
  | .list items => exact sortCompareLists_self items

theorem sortCompareLists_self (vs : List Value) : sortCompareLists vs vs = .eq := by
  match vs with
  | [] => rfl
  | v :: vs => rw [sortCompareLists, sortCompare_self v, sortCompareLists_self vs]; rfl

end

/-! ## Ranks -/

/-- Values of different ranks are compared by rank. -/
theorem sortCompare_of_rank_ne {v w : Value} (h : rank v ≠ rank w) :
    sortCompare v w = compare (rank v) (rank w) := by
  cases v <;> cases w <;> first | rfl | (exact absurd rfl h) | skip
  case int.decimal n x =>
    cases hx : x.isNaN <;> simp only [rank, sortCompare, hx] at *
    · exact absurd rfl h
    · rfl
  case decimal.int x n =>
    cases hx : x.isNaN <;> simp only [rank, sortCompare, hx] at *
    · exact absurd rfl h
    · rfl
  case decimal.decimal x y =>
    cases hx : x.isNaN <;> cases hy : y.isNaN <;> simp only [rank, sortCompare, hx, hy] at *
    · exact absurd rfl h
    · rfl
    · rfl
    · rfl

theorem rank_le_of_sortCompare {v w : Value} (h : sortCompare v w ≠ .gt) : rank v ≤ rank w := by
  by_cases he : rank v = rank w
  · exact Nat.le_of_eq he
  · rw [sortCompare_of_rank_ne he] at h
    exact Nat.compare_ne_gt.1 h

/-- A value of the rank of numbers is an integer, or a decimal that is a number. -/
theorem number_of_rank {v : Value} (h : rank v = 1) :
    (∃ n, v = .int n) ∨ ∃ x, v = .decimal x ∧ x.isNaN = false := by
  cases v with
  | int n => exact .inl ⟨n, rfl⟩
  | decimal x =>
    refine .inr ⟨x, rfl, ?_⟩
    cases hx : x.isNaN with
    | false => rfl
    | true => simp [rank, hx] at h
  | null => cases h
  | bool _ => cases h
  | text _ => cases h
  | instant _ => cases h
  | list _ => cases h

theorem sortCompare_int_decimal {n : Int64} {x : Binary64} (hx : x.isNaN = false) :
    sortCompare (.int n) (.decimal x) =
      compare (Binary64.ofInt n.toInt).orderKey x.orderKey := by
  rw [sortCompare, hx]
  rfl

theorem sortCompare_decimal_int {n : Int64} {x : Binary64} (hx : x.isNaN = false) :
    sortCompare (.decimal x) (.int n) =
      compare x.orderKey (Binary64.ofInt n.toInt).orderKey := by
  rw [sortCompare, hx]
  rfl

theorem sortCompare_decimal_decimal {x y : Binary64} (hx : x.isNaN = false)
    (hy : y.isNaN = false) :
    sortCompare (.decimal x) (.decimal y) = compare x.orderKey y.orderKey := by
  rw [sortCompare, hx, hy]
  rfl

/-- Two values of one rank. -/
inductive SameRank : Value → Value → Prop
  | number {v w : Value} (hv : rank v = 1) (hw : rank w = 1) : SameRank v w
  | nan {x y : Binary64} (hx : x.isNaN = true) (hy : y.isNaN = true) :
      SameRank (.decimal x) (.decimal y)
  | null : SameRank .null .null
  | bool (a b : Bool) : SameRank (.bool a) (.bool b)
  | text (a b : String) : SameRank (.text a) (.text b)
  | instant (a b : Instant) : SameRank (.instant a) (.instant b)
  | list (as bs : List Value) : SameRank (.list as) (.list bs)

/-- A decimal that does not have the rank of numbers is none. -/
theorem isNaN_of_rank_ne {x : Binary64} (h : rank (.decimal x) ≠ 1) : x.isNaN = true := by
  cases hx : x.isNaN with
  | true => rfl
  | false => simp [rank, hx] at h

theorem sameRank_of_rank_eq {v w : Value} (h : rank v = rank w) : SameRank v w := by
  by_cases hv : rank v = 1
  · exact .number hv (h ▸ hv)
  have hw : rank w ≠ 1 := h ▸ hv
  cases v <;> cases w <;> first | (cases h; done) | exact absurd rfl hv | exact absurd rfl hw | skip
  case null.null => exact .null
  case bool.bool a b => exact .bool a b
  case text.text a b => exact .text a b
  case instant.instant a b => exact .instant a b
  case list.list as bs => exact .list as bs
  case decimal.decimal x y => exact .nan (isNaN_of_rank_ne hv) (isNaN_of_rank_ne hw)
  -- what is no number shares its rank with nothing else
  all_goals
    simp only [rank] at h
    split at h <;> cases h

theorem sortCompare_nan {x y : Binary64} (hx : x.isNaN = true) (hy : y.isNaN = true) :
    sortCompare (.decimal x) (.decimal y) = .eq := by
  simp [sortCompare, rank, hx, hy]

/-! ## Turning around -/

theorem sortCompare_swap_numbers {v w : Value} (hv : rank v = 1) (hw : rank w = 1) :
    sortCompare w v = (sortCompare v w).swap := by
  rcases number_of_rank hv with ⟨m, rfl⟩ | ⟨x, rfl, hx⟩ <;>
    rcases number_of_rank hw with ⟨n, rfl⟩ | ⟨y, rfl, hy⟩
  · exact Std.OrientedOrd.eq_swap
  · rw [sortCompare_int_decimal hy, sortCompare_decimal_int hy]
    exact Std.OrientedOrd.eq_swap
  · rw [sortCompare_int_decimal hx, sortCompare_decimal_int hx]
    exact Std.OrientedOrd.eq_swap
  · rw [sortCompare_decimal_decimal hx hy, sortCompare_decimal_decimal hy hx]
    exact Std.OrientedOrd.eq_swap

mutual

theorem sortCompare_swap (v w : Value) : sortCompare w v = (sortCompare v w).swap := by
  by_cases h : rank v = rank w
  · match v, w, sameRank_of_rank_eq h with
    | v, w, .number hv hw => exact sortCompare_swap_numbers hv hw
    | _, _, .nan hx hy => rw [sortCompare_nan hx hy, sortCompare_nan hy hx]; rfl
    | _, _, .null => rfl
    | _, _, .bool a b => exact Std.OrientedOrd.eq_swap
    | _, _, .text a b => exact Std.OrientedOrd.eq_swap
    | _, _, .instant a b => exact @Std.OrientedCmp.eq_swap _ Instant.compare _ b a
    | _, _, .list as bs => exact sortCompareLists_swap as bs
  · rw [sortCompare_of_rank_ne h, sortCompare_of_rank_ne (Ne.symm h)]
    exact Std.OrientedOrd.eq_swap

theorem sortCompareLists_swap (vs ws : List Value) :
    sortCompareLists ws vs = (sortCompareLists vs ws).swap := by
  match vs, ws with
  | [], [] => rfl
  | [], _ :: _ => rfl
  | _ :: _, [] => rfl
  | v :: vs, w :: ws =>
    rw [sortCompareLists, sortCompareLists, Ordering.swap_then, ← sortCompare_swap v w,
      ← sortCompareLists_swap vs ws]

end

/-! ## Three values -/

section Numbers

variable {r : Int → Int} (hr : ∀ m n, m ≤ n → r m ≤ r n) {m n k : Int}
  (hsep : r m = k → r n = k → m = n)

include hr hsep

theorem chain_int_int_key :
    Chain (compare m n) (compare (r n) k) (compare (r m) k) := by
  intro hmn hnk
  rw [Int.compare_ne_gt] at hmn hnk
  have hle := hr m n hmn
  rcases Int.lt_or_eq_of_le hmn with hlt | rfl
  · have hne : r m ≠ k := fun hm => by
      have := hsep hm (by omega)
      omega
    rw [Int.compare_eq_lt.2 hlt, Int.compare_eq_lt.2 (show r m < k by omega)]
    rfl
  · rw [Int.compare_eq_eq.2 rfl]
    rfl

theorem chain_int_key_int :
    Chain (compare (r m) k) (compare k (r n)) (compare m n) := by
  intro hmk hkn
  rw [Int.compare_ne_gt] at hmk hkn
  by_cases heq : r m = k ∧ r n = k
  · obtain rfl := hsep heq.1 heq.2
    rw [heq.1, Int.compare_eq_eq.2 rfl, Int.compare_eq_eq.2 rfl]
    rfl
  · have hlt : m < n := by
      by_contra hge
      have := hr n m (by omega)
      omega
    rw [Int.compare_eq_lt.2 hlt]
    rcases Int.lt_or_eq_of_le hmk with h | h
    · rw [Int.compare_eq_lt.2 h]; rfl
    · rw [h, Int.compare_eq_eq.2 rfl, Int.compare_eq_lt.2 (show k < r n by omega)]; rfl

theorem chain_key_int_int :
    Chain (compare k (r m)) (compare m n) (compare k (r n)) := by
  intro hkm hmn
  rw [Int.compare_ne_gt] at hkm hmn
  have hle := hr m n hmn
  rcases Int.lt_or_eq_of_le hmn with hlt | rfl
  · have hne : ¬ (r m = k ∧ r n = k) := fun h => by
      have := hsep h.1 h.2
      omega
    rw [Int.compare_eq_lt.2 hlt, Int.compare_eq_lt.2 (show k < r n by omega)]
    rcases Int.lt_or_eq_of_le hkm with h | h
    · rw [Int.compare_eq_lt.2 h]; rfl
    · rw [h, Int.compare_eq_eq.2 rfl]; rfl
  · rw [Int.compare_eq_eq.2 rfl]
    cases compare k (r m) <;> rfl

end Numbers

variable {ints : Int64 → Prop} {decimals : Binary64 → Prop}

/-- Without a conflict, integers that are rounded to one decimal are equal. -/
theorem eq_of_orderKey (hfree : ¬ Conflict ints decimals) {i j : Int64} {x : Binary64}
    (hi : ints i) (hj : ints j) (hx : decimals x)
    (hix : (Binary64.ofInt i.toInt).orderKey = x.orderKey)
    (hjx : (Binary64.ofInt j.toInt).orderKey = x.orderKey) : i.toInt = j.toInt := by
  have key {y : Binary64} (h : y.orderKey = x.orderKey) : y = x :=
    Binary64.totalCompare_eq_eq_iff.1 (Int.compare_eq_eq.2 h)
  by_contra hne
  exact hfree ⟨i, j, x, hi, hj, hx, fun h => hne (h ▸ rfl), key hix, key hjx⟩

theorem sortCompare_chain_numbers (hfree : ¬ Conflict ints decimals) {u v w : Value}
    (hu : Within ints decimals u) (hv : Within ints decimals v) (hw : Within ints decimals w)
    (ru : rank u = 1) (rv : rank v = 1) (rw' : rank w = 1) :
    Chain (sortCompare u v) (sortCompare v w) (sortCompare u w) := by
  have hr : ∀ m n : Int, m ≤ n →
      (Binary64.ofInt m).orderKey ≤ (Binary64.ofInt n).orderKey :=
    fun _ _ => Binary64.orderKey_ofInt_mono
  rcases number_of_rank ru with ⟨l, rfl⟩ | ⟨x, rfl, hx⟩ <;>
    rcases number_of_rank rv with ⟨m, rfl⟩ | ⟨y, rfl, hy⟩ <;>
    rcases number_of_rank rw' with ⟨n, rfl⟩ | ⟨z, rfl, hz⟩
  · exact Chain.of_transCmp compare l.toInt m.toInt n.toInt
  · rw [sortCompare_int_decimal hz, sortCompare_int_decimal hz]
    exact chain_int_int_key hr fun hl hm => eq_of_orderKey hfree hu hv hw hl hm
  · rw [sortCompare_int_decimal hy, sortCompare_decimal_int hy]
    exact chain_int_key_int hr fun hl hn => eq_of_orderKey hfree hu hw hv hl hn
  · rw [sortCompare_int_decimal hy, sortCompare_decimal_decimal hy hz, sortCompare_int_decimal hz]
    exact Chain.of_transCmp compare _ _ _
  · rw [sortCompare_decimal_int hx, sortCompare_decimal_int hx]
    exact chain_key_int_int hr fun hm hn => eq_of_orderKey hfree hv hw hu hm hn
  · rw [sortCompare_decimal_int hx, sortCompare_int_decimal hz, sortCompare_decimal_decimal hx hz]
    exact Chain.of_transCmp compare _ _ _
  · rw [sortCompare_decimal_decimal hx hy, sortCompare_decimal_int hy, sortCompare_decimal_int hx]
    exact Chain.of_transCmp compare _ _ _
  · rw [sortCompare_decimal_decimal hx hy, sortCompare_decimal_decimal hy hz,
      sortCompare_decimal_decimal hx hz]
    exact Chain.of_transCmp compare _ _ _

/-- The chain law passes over a change of rank. -/
theorem sortCompare_chain_of_rank_ne {u v w : Value} (h : rank u ≠ rank v ∨ rank v ≠ rank w) :
    Chain (sortCompare u v) (sortCompare v w) (sortCompare u w) := by
  intro huv hvw
  have h1 := rank_le_of_sortCompare huv
  have h2 := rank_le_of_sortCompare hvw
  have hne : rank u ≠ rank w := by omega
  rw [sortCompare_of_rank_ne hne, Nat.compare_eq_lt.2 (show rank u < rank w by omega)]
  by_cases he : rank u = rank v
  · have hne' : rank v ≠ rank w := by omega
    rw [sortCompare_of_rank_ne hne', Nat.compare_eq_lt.2 (show rank v < rank w by omega)]
    cases e : sortCompare u v with
    | gt => exact absurd e huv
    | lt => rfl
    | eq => rfl
  · rw [sortCompare_of_rank_ne he, Nat.compare_eq_lt.2 (show rank u < rank v by omega)]
    rfl

mutual

theorem sortCompare_chain (hfree : ¬ Conflict ints decimals) (u v w : Value)
    (hu : Within ints decimals u) (hv : Within ints decimals v) (hw : Within ints decimals w) :
    Chain (sortCompare u v) (sortCompare v w) (sortCompare u w) := by
  by_cases huv : rank u = rank v
  · by_cases hvw : rank v = rank w
    · match u, v, w, sameRank_of_rank_eq huv, sameRank_of_rank_eq hvw with
      | u, v, w, .number ru rv, _ =>
        exact sortCompare_chain_numbers hfree hu hv hw ru rv (hvw ▸ rv)
      | _, _, _, .nan hx hy, .nan _ hz =>
        rw [sortCompare_nan hx hy, sortCompare_nan hx hz]
        exact fun _ _ => by rw [sortCompare_nan hy hz]; rfl
      | _, _, _, .nan _ hy, .number rv _ => simp [rank, hy] at rv
      | _, _, _, .null, .null => exact fun _ _ => rfl
      | _, _, _, .bool a b, .bool _ c => exact Chain.of_transCmp compare a b c
      | _, _, _, .text a b, .text _ c => exact Chain.of_transCmp compare a b c
      | _, _, _, .instant a b, .instant _ c => exact Chain.of_transCmp Instant.compare a b c
      | _, _, _, .list as bs, .list _ cs => exact sortCompareLists_chain hfree as bs cs hu hv hw
    · exact sortCompare_chain_of_rank_ne (.inr hvw)
  · exact sortCompare_chain_of_rank_ne (.inl huv)

theorem sortCompareLists_chain (hfree : ¬ Conflict ints decimals) (us vs ws : List Value)
    (hus : WithinAll ints decimals us) (hvs : WithinAll ints decimals vs)
    (hws : WithinAll ints decimals ws) :
    Chain (sortCompareLists us vs) (sortCompareLists vs ws) (sortCompareLists us ws) := by
  match us, vs, ws with
  | [], [], [] => exact fun _ _ => rfl
  | [], [], _ :: _ => exact fun _ _ => rfl
  | [], _ :: _, [] => exact fun _ h => absurd rfl h
  | [], _ :: _, _ :: _ => exact fun _ _ => rfl
  | _ :: _, [], _ => exact fun h _ => absurd rfl h
  | _ :: _, _ :: _, [] => exact fun _ h => absurd rfl h
  | u :: us, v :: vs, w :: ws =>
    rw [sortCompareLists, sortCompareLists, sortCompareLists]
    exact (sortCompare_chain hfree u v w hus.1 hvs.1 hws.1).then
      (sortCompareLists_chain hfree us vs ws hus.2 hvs.2 hws.2)

end

/-! ## The laws -/

/-- The integers of a conflict and the decimal between them are equal to it, but not to each
other. -/
theorem not_preorderOn_of_conflict (h : Conflict ints decimals) :
    ¬ PreorderOn sortCompare (Within ints decimals) := by
  rintro hpre
  obtain ⟨i, j, x, hi, hj, hx, hne, rfl, hjx⟩ := h
  have hnan := Binary64.isNaN_ofInt i.toInt
  have hix : sortCompare (.int i) (.decimal (.ofInt i.toInt)) = .eq := by
    rw [sortCompare_int_decimal hnan]
    exact Int.compare_eq_eq.2 rfl
  have hxj : sortCompare (.decimal (.ofInt i.toInt)) (.int j) = .eq := by
    rw [sortCompare_decimal_int hnan, hjx]
    exact Int.compare_eq_eq.2 rfl
  have hij := hpre.eq_trans (.int i) (.decimal (.ofInt i.toInt)) (.int j) hi hx hj hix hxj
  exact hne (Int64.toInt_inj.1 (Int.compare_eq_eq.1 hij))

/-- Values without such a conflict are in a total preorder. -/
theorem sortCompare_preorderOn (hfree : ¬ Conflict ints decimals) :
    PreorderOn sortCompare (Within ints decimals) :=
  .of_chain (fun v _ => sortCompare_self v) (fun v w _ _ => sortCompare_swap v w)
    (sortCompare_chain hfree)

/-- **When sorting has a total preorder to go by.** All values equal themselves and turn around
with their comparison; of the values whose integers and decimals, at any depth, are of given
kinds, the comparison is a total preorder exactly if no two different integers of the kind are
rounded to one decimal of the kind. -/
theorem sortCompare_preorderOn_iff (ints : Int64 → Prop) (decimals : Binary64 → Prop) :
    (∀ v, sortCompare v v = .eq) ∧ (∀ v w, sortCompare w v = (sortCompare v w).swap) ∧
    (PreorderOn sortCompare (Within ints decimals) ↔ ¬ Conflict ints decimals) := by
  refine ⟨sortCompare_self, sortCompare_swap, fun hpre h => ?_, sortCompare_preorderOn⟩
  exact not_preorderOn_of_conflict h hpre

/-- Two integers that differ by one, with the decimal between them to which both are equal: the
order of all values is not transitive. -/
theorem sortCompare_not_transitive :
    (sortCompare (.int 9007199254740993) (.decimal (.ofInt 9007199254740992)) = .eq ∧
      sortCompare (.decimal (.ofInt 9007199254740992)) (.int 9007199254740992) = .eq ∧
      sortCompare (.int 9007199254740993) (.int 9007199254740992) = .gt) ∧
    ¬ PreorderOn sortCompare fun _ => True := by
  have huv : sortCompare (.int 9007199254740993) (.decimal (.ofInt 9007199254740992)) = .eq := by
    decide +kernel
  have hvw : sortCompare (.decimal (.ofInt 9007199254740992)) (.int 9007199254740992) = .eq := by
    decide +kernel
  have huw : sortCompare (.int 9007199254740993) (.int 9007199254740992) = .gt := by
    decide +kernel
  refine ⟨⟨huv, hvw, huw⟩, fun hpre => ?_⟩
  have := hpre.eq_trans _ _ _ trivial trivial trivial huv hvw
  rw [huw] at this
  cases this

end Value

end FieldQuery

/-!
# Comparisons that are total preorders

* `PreorderOn` — the laws of a total preorder, for the elements of a kind;
* `Chain` — the law of three elements in the form in which it passes to lists: the first and the
  last compare as the two steps between them do, the first step that is no equality deciding.

* `compareNoneLast` — the comparison of what may be absent.

Principal results: `PreorderOn.of_chain` — given the laws of one and of two elements, the chain law
is all that is missing; `Chain.then` — comparing by two criteria, one after the other, keeps it;
`PreorderOn.flip`, `PreorderOn.comap` and `PreorderOn.noneLast` — comparisons made of a total preorder.
-/

namespace FieldQuery

variable {α : Type}

/-- A comparison that is a total preorder on the elements of a kind. -/
structure PreorderOn (cmp : α → α → Ordering) (S : α → Prop) : Prop where
  self : ∀ a, S a → cmp a a = .eq
  swap : ∀ a b, S a → S b → cmp b a = (cmp a b).swap
  trans : ∀ a b c, S a → S b → S c → cmp a b ≠ .gt → cmp b c ≠ .gt → cmp a c ≠ .gt
  eq_trans : ∀ a b c, S a → S b → S c → cmp a b = .eq → cmp b c = .eq → cmp a c = .eq

/-- Two steps upwards, and the way from the first element to the last. -/
def Chain (ab bc ac : Ordering) : Prop := ab ≠ .gt → bc ≠ .gt → ac = ab.then bc

theorem Chain.then {ab bc ac ab' bc' ac' : Ordering} (h : Chain ab bc ac)
    (h' : Chain ab' bc' ac') : Chain (ab.then ab') (bc.then bc') (ac.then ac') := by
  intro hab hbc
  cases ab with
  | gt => exact absurd rfl hab
  | lt =>
    cases bc with
    | gt => exact absurd rfl hbc
    | lt => rw [h (by decide) (by decide)]; rfl
    | eq => rw [h (by decide) (by decide)]; rfl
  | eq =>
    cases bc with
    | gt => exact absurd rfl hbc
    | eq => rw [h (by decide) (by decide)]; exact h' hab hbc
    | lt =>
      rw [h (by decide) (by decide)]
      cases ab' with
      | gt => exact absurd rfl hab
      | lt => rfl
      | eq => rfl

/-- Elements of a lawful comparison are chained. -/
theorem Chain.of_transCmp (cmp : α → α → Ordering) [Std.TransCmp cmp] (a b c : α) :
    Chain (cmp a b) (cmp b c) (cmp a c) := by
  intro hab hbc
  cases eab : cmp a b with
  | gt => exact absurd eab hab
  | eq => exact Std.TransCmp.congr_left eab
  | lt => exact Std.TransCmp.lt_of_lt_of_isLE eab (Ordering.ne_gt_iff_isLE.1 hbc)

variable {cmp : α → α → Ordering} {S : α → Prop}

theorem PreorderOn.of_chain (hself : ∀ a, S a → cmp a a = .eq)
    (hswap : ∀ a b, S a → S b → cmp b a = (cmp a b).swap)
    (h : ∀ a b c, S a → S b → S c → Chain (cmp a b) (cmp b c) (cmp a c)) : PreorderOn cmp S where
  self := hself
  swap := hswap
  trans a b c ha hb hc hab hbc := by
    rw [h a b c ha hb hc hab hbc]
    cases eab : cmp a b with
    | lt => exact fun h => by cases h
    | eq => exact hbc
    | gt => exact absurd eab hab
  eq_trans a b c ha hb hc hab hbc := by
    rw [h a b c ha hb hc (by rw [hab]; decide) (by rw [hbc]; decide), hab, hbc]
    rfl

/-! ## Comparisons made of others -/

/-- The comparison the other way round. -/
theorem PreorderOn.flip (h : PreorderOn cmp S) : PreorderOn (fun a b => cmp b a) S where
  self := h.self
  swap a b ha hb := h.swap b a hb ha
  trans a b c ha hb hc hab hbc := h.trans c b a hc hb ha hbc hab
  eq_trans a b c ha hb hc hab hbc := h.eq_trans c b a hc hb ha hbc hab

/-- The comparison of what elements stand for. -/
theorem PreorderOn.comap {β : Type} (h : PreorderOn cmp S) (f : β → α) :
    PreorderOn (fun a b => cmp (f a) (f b)) fun a => S (f a) where
  self a := h.self (f a)
  swap a b := h.swap (f a) (f b)
  trans a b c := h.trans (f a) (f b) (f c)
  eq_trans a b c := h.eq_trans (f a) (f b) (f c)

/-- Fewer elements to compare. -/
theorem PreorderOn.mono {T : α → Prop} (h : PreorderOn cmp S) (hT : ∀ a, T a → S a) :
    PreorderOn cmp T where
  self a ha := h.self a (hT a ha)
  swap a b ha hb := h.swap a b (hT a ha) (hT b hb)
  trans a b c ha hb hc := h.trans a b c (hT a ha) (hT b hb) (hT c hc)
  eq_trans a b c ha hb hc := h.eq_trans a b c (hT a ha) (hT b hb) (hT c hc)

/-- What is absent comes last. -/
def compareNoneLast (cmp : α → α → Ordering) : Option α → Option α → Ordering
  | none, none => .eq
  | none, some _ => .gt
  | some _, none => .lt
  | some a, some b => cmp a b

theorem PreorderOn.noneLast (h : PreorderOn cmp S) :
    PreorderOn (compareNoneLast cmp) fun a => ∀ x, a = some x → S x where
  self a ha := by
    cases a with
    | none => rfl
    | some x => exact h.self x (ha x rfl)
  swap a b ha hb := by
    cases a with
    | none => cases b <;> rfl
    | some x =>
      cases b with
      | none => rfl
      | some y => exact h.swap x y (ha x rfl) (hb y rfl)
  trans a b c ha hb hc hab hbc := by
    cases a with
    | none =>
      cases b with
      | none => exact hbc
      | some y => exact absurd rfl hab
    | some x =>
      cases c with
      | none => exact fun h => by cases h
      | some z =>
        cases b with
        | none => exact absurd rfl hbc
        | some y => exact h.trans x y z (ha x rfl) (hb y rfl) (hc z rfl) hab hbc
  eq_trans a b c ha hb hc hab hbc := by
    cases a with
    | none =>
      cases b with
      | none => exact hbc
      | some y => cases hab
    | some x =>
      cases b with
      | none => cases hab
      | some y =>
        cases c with
        | none => cases hbc
        | some z => exact h.eq_trans x y z (ha x rfl) (hb y rfl) (hc z rfl) hab hbc

end FieldQuery

import FieldQuery.Data.Walk
import Mathlib.Data.List.Chain
import Mathlib.Data.List.Perm.Subperm
import Mathlib.Logic.Relation

/-!
# What walks over graphs of names find

* `Edge` — the relation of a name to its successors, and `Acyclic`;
* `Finished` — a list in which the successors of every name stand behind it, each name once;
* `Left`, `Closed` — what a walk adds to the names that have been left, and the cycle it closes;
* `findCycle_spec` — one of the two is what `findCycle` returns.  The walk has fuel enough because
  the names on its path are distinct;
* `postorder_eq` — `postorder` lists what `findCycle` leaves, in the opposite direction.

Principal results: `findCycle_spec`, `Finished.acyclic` — no cycle passes a finished name,
`postorder_spec` — in a graph without cycles `postorder` lists exactly the names that can be
reached, each after its successors, and `findSome?_postorder` — what goes wrong first in this order
is what goes wrong for the last name.
-/

namespace FieldQuery.Walk

open Relation

variable {next : String → List String}

/-- An edge leads from a name to each of its successors. -/
def Edge (next : String → List String) (a b : String) : Prop := b ∈ next a

/-- No name can be reached from itself. -/
def Acyclic (edge : String → String → Prop) : Prop := ∀ a, ¬ TransGen edge a a

/-! ## A name more -/

section NewName

variable {edge edge' : String → String → Prop} {n : String}
  (hnew : ∀ a b, edge' a b → edge a b ∨ a = n ∨ b = n)

include hnew

/-- A way over new edges is one over old edges, or passes the name that they touch. -/
theorem transGen_or_through {a b : String} (h : TransGen edge' a b) :
    TransGen edge a b ∨ ReflTransGen edge' a n ∧ ReflTransGen edge' n b := by
  induction h with
  | single hab =>
    rcases hnew _ _ hab with h | rfl | rfl
    · exact .inl (.single h)
    · exact .inr ⟨.refl, .single hab⟩
    · exact .inr ⟨.single hab, .refl⟩
  | tail hab hbc ih =>
    rcases ih with ih | ⟨han, hnb⟩
    · rcases hnew _ _ hbc with h | rfl | rfl
      · exact .inl (ih.tail h)
      · exact .inr ⟨hab.to_reflTransGen, .single hbc⟩
      · exact .inr ⟨hab.to_reflTransGen.tail hbc, .refl⟩
    · exact .inr ⟨han, hnb.tail hbc⟩

/-- A name whose edges close no cycle through it closes none elsewhere. -/
theorem Acyclic.of_new (hacyclic : Acyclic edge) (hn : ¬ TransGen edge' n n) :
    Acyclic edge' := by
  intro a ha
  rcases transGen_or_through hnew ha with h | ⟨han, hna⟩
  · exact hacyclic a h
  · exact hn (TransGen.trans_right hna (TransGen.trans_left ha han))

end NewName

/-! ## Finished names -/

/-- Every name stands before its successors, and once. -/
def Finished (next : String → List String) : List String → Prop
  | [] => True
  | a :: rest => a ∉ rest ∧ (∀ b ∈ next a, b ∈ rest) ∧ Finished next rest

theorem Finished.nodup {l : List String} (h : Finished next l) : l.Nodup := by
  induction l with
  | nil => exact List.nodup_nil
  | cons a l ih => exact List.nodup_cons.2 ⟨h.1, ih h.2.2⟩

theorem Finished.mem_of_edge {l : List String} (h : Finished next l) {a b : String} (ha : a ∈ l)
    (hab : Edge next a b) : b ∈ l := by
  induction l with
  | nil => cases ha
  | cons c l ih =>
    rcases List.mem_cons.1 ha with rfl | ha
    · exact List.mem_cons_of_mem _ (h.2.1 b hab)
    · exact List.mem_cons_of_mem _ (ih h.2.2 ha)

theorem Finished.mem_of_reach {l : List String} (h : Finished next l) {a b : String} (ha : a ∈ l)
    (hab : ReflTransGen (Edge next) a b) : b ∈ l := by
  induction hab with
  | refl => exact ha
  | tail _ hbc ih => exact h.mem_of_edge ih hbc

/-- **No cycle passes a finished name.** -/
theorem Finished.acyclic {l : List String} (h : Finished next l) {a : String} (ha : a ∈ l) :
    ¬ TransGen (Edge next) a a := by
  induction l with
  | nil => cases ha
  | cons c l ih =>
    rcases List.mem_cons.1 ha with rfl | ha
    · -- the successors of the first name are behind it, and lead no way back
      intro hcycle
      obtain ⟨b, hab, hba⟩ := TransGen.head'_iff.1 hcycle
      exact h.1 (h.2.2.mem_of_reach (h.2.1 b hab) hba)
    · exact ih h.2.2 ha

/-- A name of a finished list has its successors in what is left of the list. -/
theorem Finished.of_append {l l' : List String} (h : Finished next (l ++ l')) :
    Finished next l' := by
  induction l with
  | nil => exact h
  | cons a l ih => exact ih h.2.2

/-! ## The walk that looks for cycles -/

/-- What a walk from a name leaves behind. -/
structure Left (next : String → List String) (path done : List String) (name : String)
    (done' : List String) : Prop where
  finished : Finished next done'
  mem : name ∈ done'
  subset : done ⊆ done'
  new : ∀ x ∈ done', x ∈ done ∨ x ∉ path ∧ ReflTransGen (Edge next) name x

/-- A cycle at the end of a walk that begins with the given names. -/
def Closed (next : String → List String) (walked chain : List String) : Prop :=
  ∃ before a between, chain = a :: between ++ [a] ∧ (before ++ a :: between).Nodup ∧
    (before ++ a :: between ++ [a]).IsChain (Edge next) ∧
    walked <+: before ++ a :: between ++ [a]

/-- A walk that may go on from `name`: it has passed distinct names of the graph, and has more fuel
than the graph has names besides. -/
structure Walking (next : String → List String) (nodes : List String) (fuel : Nat)
    (path : List String) (name : String) : Prop where
  mem : name ∈ nodes
  chain : (path ++ [name]).IsChain (Edge next)
  nodup : path.Nodup
  subset : path ⊆ nodes
  fuel : nodes.length < fuel + path.length

/-- A walk has fuel left. -/
theorem Walking.fuel_pos {nodes : List String} {fuel : Nat} {path : List String} {name : String}
    (h : Walking next nodes fuel path name) : 0 < fuel := by
  have := (List.subperm_of_subset h.nodup h.subset).length_le
  have := h.fuel
  omega

/-- A walk goes on to a successor of a name that it has not passed. -/
theorem Walking.step {nodes : List String} (hnodes : ∀ a ∈ nodes, ∀ b ∈ next a, b ∈ nodes)
    {fuel : Nat} {path : List String} {name : String}
    (h : Walking next nodes (fuel + 1) path name) (hname : name ∉ path) {b : String}
    (hb : b ∈ next name) : Walking next nodes fuel (path ++ [name]) b where
  mem := hnodes name h.mem b hb
  chain := by
    refine List.isChain_append.2 ⟨h.chain, List.isChain_singleton b, ?_⟩
    intro x hx y hy
    obtain rfl : name = x := by simpa using hx
    obtain rfl : b = y := by simpa using hy
    exact hb
  nodup := by
    refine List.nodup_append.2 ⟨h.nodup, by simp, ?_⟩
    intro a ha b hb hab
    exact hname (List.mem_singleton.1 hb ▸ hab ▸ ha)
  subset := by
    intro x hx
    rcases List.mem_append.1 hx with hx | hx
    · exact h.subset hx
    · rw [List.mem_singleton.1 hx]; exact h.mem
  fuel := by
    have := h.fuel
    simp only [List.length_append, List.length_singleton]
    omega

/-- A name that stands on the path closes a cycle. -/
theorem closed_of_mem {path : List String} {name : String}
    (hchain : (path ++ [name]).IsChain (Edge next)) (hnodup : path.Nodup) (hname : name ∈ path) :
    Closed next (path ++ [name]) (path.dropWhile (· != name) ++ [name]) := by
  obtain ⟨before, between, rfl⟩ := List.append_of_mem hname
  have hbefore : ∀ a ∈ before, (a != name) = true := by
    intro a ha
    have := (List.nodup_append.1 hnodup).2.2 a ha name List.mem_cons_self
    simpa using this
  have hdrop : (before ++ name :: between).dropWhile (· != name) = name :: between := by
    rw [List.dropWhile_append_of_pos hbefore]
    simp
  rw [hdrop]
  exact ⟨before, name, between, rfl, hnodup, hchain, List.prefix_refl _⟩

/-- What the walk returns: an error with a cycle, or the names that have been left. -/
def Returns (next : String → List String) (path done : List String) (name : String) :
    Except (List String) (List String) → Prop
  | .error chain => Closed next (path ++ [name]) chain
  | .ok done' => Left next path done name done'

/-- The walk over several successors of the last name on its path. -/
theorem foldlM_findCycle_spec {fuel : Nat} {path : List String}
    {names : List String}
    (ih : ∀ b ∈ names, ∀ done, Finished next done →
      Returns next path done b (findCycle next fuel path done b))
    (done : List String) (hdone : Finished next done) :
    match names.foldlM (findCycle next fuel path) done with
    | .error chain => Closed next path chain
    | .ok done' => Finished next done' ∧ (∀ b ∈ names, b ∈ done') ∧ done ⊆ done' ∧
        ∀ x ∈ done', x ∈ done ∨ x ∉ path ∧ ∃ b ∈ names, ReflTransGen (Edge next) b x := by
  induction names generalizing done with
  | nil => exact ⟨hdone, by simp, List.Subset.refl _, fun x hx => .inl hx⟩
  | cons b names ihn =>
    have hb := ih b List.mem_cons_self done hdone
    rw [List.foldlM_cons]
    cases e : findCycle next fuel path done b with
    | error chain =>
      rw [e] at hb
      obtain ⟨before, a, between, h1, h2, h3, h4⟩ := hb
      exact ⟨before, a, between, h1, h2, h3, (List.prefix_append _ _).trans h4⟩
    | ok done₁ =>
      rw [e] at hb
      have hrest := ihn (fun c hc => ih c (List.mem_cons_of_mem _ hc)) done₁ hb.finished
      show match names.foldlM (findCycle next fuel path) done₁ with
        | .error chain => _
        | .ok done' => _
      cases e' : names.foldlM (findCycle next fuel path) done₁ with
      | error chain => rw [e'] at hrest; exact hrest
      | ok done' =>
        rw [e'] at hrest
        obtain ⟨hfin, hmem, hsub, hnew⟩ := hrest
        refine ⟨hfin, ?_, fun x hx => hsub (hb.subset hx), ?_⟩
        · intro c hc
          rcases List.mem_cons.1 hc with rfl | hc
          · exact hsub hb.mem
          · exact hmem c hc
        · intro x hx
          rcases hnew x hx with hx | ⟨hpath, c, hc, hcx⟩
          · rcases hb.new x hx with hx | ⟨hpath, hbx⟩
            · exact .inl hx
            · exact .inr ⟨hpath, b, List.mem_cons_self, hbx⟩
          · exact .inr ⟨hpath, c, List.mem_cons_of_mem _ hc, hcx⟩

/-- **The walk returns a cycle, or the names that it has left.** -/
theorem findCycle_spec {nodes : List String} (hnodes : ∀ a ∈ nodes, ∀ b ∈ next a, b ∈ nodes) :
    ∀ (fuel : Nat) (path done : List String) (name : String),
      Walking next nodes fuel path name → Finished next done →
      Returns next path done name (findCycle next fuel path done name)
  | 0, _, _, _, hwalk, _ => absurd hwalk.fuel_pos (Nat.lt_irrefl 0)
  | fuel + 1, path, done, name, hwalk, hdone => by
    unfold findCycle
    split
    · rename_i hmem
      exact ⟨hdone, by simpa using hmem, List.Subset.refl _, fun x hx => .inl hx⟩
    rename_i hmem
    split
    · rename_i hpath
      exact closed_of_mem hwalk.chain hwalk.nodup (by simpa using hpath)
    rename_i hpath
    have hname : name ∉ path := by simpa using hpath
    have hfold := foldlM_findCycle_spec (fun b hb done hdone =>
      findCycle_spec hnodes fuel (path ++ [name]) done b (hwalk.step hnodes hname hb) hdone)
      done hdone
    split
    · rename_i chain e
      rw [e] at hfold
      exact hfold
    · rename_i done' e
      rw [e] at hfold
      obtain ⟨hfin, hsucc, hsub, hnew⟩ := hfold
      have hfresh : name ∉ done' := by
        intro h
        rcases hnew name h with h | ⟨h, _⟩
        · exact absurd (by simpa using h) hmem
        · exact h (by simp)
      refine ⟨⟨hfresh, hsucc, hfin⟩, List.mem_cons_self, fun x hx => .tail _ (hsub hx), ?_⟩
      intro x hx
      rcases List.mem_cons.1 hx with rfl | hx
      · exact .inr ⟨hname, .refl⟩
      · rcases hnew x hx with hx | ⟨hpath, b, hb, hbx⟩
        · exact .inl hx
        · exact .inr ⟨fun h => hpath (List.mem_append_left _ h), .head hb hbx⟩

/-- A walk may start at every name of the graph. -/
theorem Walking.start {nodes : List String} {fuel : Nat} {name : String} (hname : name ∈ nodes)
    (hfuel : nodes.length < fuel) : Walking next nodes fuel [] name where
  mem := hname
  chain := List.isChain_singleton name
  nodup := List.nodup_nil
  subset := List.nil_subset nodes
  fuel := hfuel

/-- A chain of edges from a name back to it. -/
theorem transGen_of_isChain {edge : String → String → Prop} {a : String} {between : List String}
    (h : (a :: between ++ [a]).IsChain edge) : TransGen edge a a := by
  have hpair := List.isChain_iff_pairwise.1 (h.imp fun _ _ => TransGen.single)
  exact (List.pairwise_cons.1 hpair).1 a (by simp)

/-- The name at both ends of a closed chain can be reached from itself. -/
theorem Closed.cycle {walked chain : List String} (h : Closed next walked chain) :
    ∃ a, TransGen (Edge next) a a := by
  obtain ⟨before, a, between, rfl, _, hchain, _⟩ := h
  rw [List.append_assoc] at hchain
  exact ⟨a, transGen_of_isChain (List.isChain_append.1 hchain).2.1⟩

/-! ## The walk that lists names after their successors -/

/-- **What one walk leaves, the other lists from the end.** -/
theorem postorder_eq : ∀ {fuel : Nat} {path done done' : List String} {name : String},
    findCycle next fuel path done name = .ok done' →
      postorder next fuel done.reverse name = done'.reverse
  | 0, _, _, _, _, h => by
    cases h
    rfl
  | fuel + 1, path, done, done', name, h => by
    have hfold : ∀ {names : List String} {path done done' : List String},
        names.foldlM (findCycle next fuel path) done = .ok done' →
          names.foldl (postorder next fuel) done.reverse = done'.reverse := by
      intro names path
      induction names with
      | nil =>
        intro done done' h
        cases h
        rfl
      | cons b names ih =>
        intro done done' h
        rw [List.foldlM_cons] at h
        cases e : findCycle next fuel path done b with
        | error chain =>
          rw [e] at h
          cases h
        | ok done₁ =>
          rw [e] at h
          rw [List.foldl_cons, postorder_eq e]
          exact ih h
    unfold findCycle at h
    unfold postorder
    have hcontains : done.reverse.contains name = done.contains name := by simp
    rw [hcontains]
    split at h
    · rename_i hmem
      cases h
      rw [if_pos hmem]
    rename_i hmem
    rw [if_neg hmem]
    split at h
    · cases h
    split at h
    · cases h
    · rename_i done₁ e
      cases h
      rw [hfold e]
      simp

/-- **Without cycles, `postorder` lists what can be reached, each name after its successors and the
first one last.** -/
theorem postorder_spec {nodes : List String} (hnodes : ∀ a ∈ nodes, ∀ b ∈ next a, b ∈ nodes)
    (hacyclic : Acyclic (Edge next)) {fuel : Nat} {name : String} (hname : name ∈ nodes)
    (hfuel : nodes.length < fuel) :
    Finished next (postorder next fuel [] name).reverse ∧
      (∃ order, postorder next fuel [] name = order ++ [name]) ∧
      ∀ x, x ∈ postorder next fuel [] name ↔ ReflTransGen (Edge next) name x := by
  have hspec := findCycle_spec hnodes fuel [] [] name (.start hname hfuel) trivial
  cases e : findCycle next fuel [] [] name with
  | error chain =>
    rw [e] at hspec
    obtain ⟨a, hcycle⟩ := Closed.cycle hspec
    exact absurd hcycle (hacyclic a)
  | ok done =>
    rw [e] at hspec
    have heq : postorder next fuel [] name = done.reverse := postorder_eq e
    refine ⟨?_, ?_, ?_⟩
    · rw [heq, List.reverse_reverse]
      exact hspec.finished
    · obtain ⟨fuel, rfl⟩ : ∃ f, fuel = f + 1 := ⟨fuel - 1, by omega⟩
      exact ⟨_, rfl⟩
    · intro x
      rw [heq, List.mem_reverse]
      constructor
      · intro hx
        rcases hspec.new x hx with hx | ⟨_, hx⟩
        · cases hx
        · exact hx
      · exact hspec.finished.mem_of_reach hspec.mem

/-! ## The first fault on the way -/

theorem prefix_foldl_postorder {fuel : Nat}
    (ih : ∀ order name, order <+: postorder next fuel order name) (names order : List String) :
    order <+: names.foldl (postorder next fuel) order := by
  induction names generalizing order with
  | nil => exact List.prefix_refl order
  | cons b names ihn => exact (ih order b).trans (ihn (postorder next fuel order b))

/-- A walk only adds names at the end. -/
theorem prefix_postorder : ∀ (fuel : Nat) (order : List String) (name : String),
    order <+: postorder next fuel order name
  | 0, order, _ => List.prefix_refl order
  | fuel + 1, order, name => by
    unfold postorder
    split
    · exact List.prefix_refl order
    · exact (prefix_foldl_postorder (prefix_postorder fuel) (next name) order).trans
        (List.prefix_append _ _)

/-- A longer list finds what its beginning finds. -/
theorem findSome?_of_prefix {α β : Type} {f : α → Option β} {l l' : List α} {b : β}
    (h : l <+: l') (hb : l.findSome? f = some b) : l'.findSome? f = some b := by
  obtain ⟨rest, rfl⟩ := h
  rw [List.findSome?_append, hb]
  rfl

section Fault

variable {β : Type} {fault : String → Option β}

theorem findSome?_foldl_postorder {fuel : Nat} {names order : List String}
    (ih : ∀ b ∈ names, ∀ order, order.findSome? fault = none →
      (postorder next fuel order b).findSome? fault = fault b)
    (horder : order.findSome? fault = none) :
    (names.foldl (postorder next fuel) order).findSome? fault = names.findSome? fault := by
  induction names generalizing order with
  | nil => exact horder
  | cons b names ihn =>
    have hb := ih b List.mem_cons_self order horder
    rw [List.foldl_cons, List.findSome?_cons]
    cases e : fault b with
    | some x =>
      exact findSome?_of_prefix (prefix_foldl_postorder (prefix_postorder fuel) names _) (hb.trans e)
    | none => exact ihn (fun c hc => ih c (List.mem_cons_of_mem _ hc)) (hb.trans e)

/-- **A name that has the first fault of its successors, or one of its own, has the first fault
that `postorder` comes upon.** -/
theorem findSome?_postorder {nodes : List String} (hnodes : ∀ a ∈ nodes, ∀ b ∈ next a, b ∈ nodes)
    (hacyclic : Acyclic (Edge next))
    (hfault : ∀ a ∈ nodes, ∀ x, (next a).findSome? fault = some x → fault a = some x) :
    ∀ (fuel : Nat) (path order : List String) (name : String),
      Walking next nodes fuel path name → order.findSome? fault = none →
      (postorder next fuel order name).findSome? fault = fault name
  | 0, _, _, _, hwalk, _ => absurd hwalk.fuel_pos (Nat.lt_irrefl 0)
  | fuel + 1, path, order, name, hwalk, horder => by
    have hname : name ∉ path := by
      intro hmem
      obtain ⟨a, hcycle⟩ := (closed_of_mem hwalk.chain hwalk.nodup hmem).cycle
      exact hacyclic a hcycle
    unfold postorder
    split
    · rename_i hmem
      rw [horder]
      exact (List.findSome?_eq_none_iff.1 horder name (by simpa using hmem)).symm
    · have hfold := findSome?_foldl_postorder (fun b hb order horder =>
        findSome?_postorder hnodes hacyclic hfault fuel (path ++ [name]) order b
          (hwalk.step hnodes hname hb) horder) horder
      rw [List.findSome?_append, hfold]
      cases e : (next name).findSome? fault with
      | some x => rw [hfault name hwalk.mem x e]; rfl
      | none => simp

end Fault

end FieldQuery.Walk

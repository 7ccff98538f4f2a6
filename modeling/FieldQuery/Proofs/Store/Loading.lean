import FieldQuery.Listing.Execute

/-!
# The loop over windows

* `Listing.Loads` — what the loop over windows of one size comes to, with no bound on their number;
* `Loads.fetched` — a store that counts what it is asked for counts the windows.

Principal results: `Loads.unique` — a loop that ends does so in one way, and `Loads.fetchWindows_eq`,
`Loads.fetchAll_eq` — it is not cut short where as many windows may be loaded as it takes.
-/

namespace FieldQuery.Listing

variable {σ τ : Type}

/-- The number of rows of a full window; a batch size of zero counts as one. -/
def windowSize (l : Listing σ τ) : Nat := max 1 l.settings.computation.batchSize

theorem windowSize_pos (l : Listing σ τ) : 0 < l.windowSize := Nat.le_max_left _ _

/-- What the loop over windows of one size comes to: from the rows loaded so far, it asks for the window
behind them, and goes on until a window is not full or the store fails.  The number is that of the
windows it asks for. -/
inductive Loads (ask : Nat → τ → Except StoreError (List Entity) × τ) (size : Nat) :
    List Entity → τ → Nat → Except StoreError (List Entity) → τ → Prop where
  | failed {es : List Entity} {t t' : τ} {err : StoreError} (hask : ask es.length t = (.error err, t')) :
      Loads ask size es t 1 (.error err) t'
  | last {es window : List Entity} {t t' : τ} (hask : ask es.length t = (.ok window, t'))
      (hshort : window.length < size) : Loads ask size es t 1 (.ok (es ++ window)) t'
  | more {es window : List Entity} {t t' t'' : τ} {n : Nat} {found : Except StoreError (List Entity)}
      (hask : ask es.length t = (.ok window, t')) (hfull : size ≤ window.length)
      (hrest : Loads ask size (es ++ window) t' n found t'') : Loads ask size es t (n + 1) found t''

namespace Loads

variable {ask : Nat → τ → Except StoreError (List Entity) × τ} {size n : Nat} {es : List Entity}
  {t t' : τ} {found : Except StoreError (List Entity)}

/-- **A loop that ends does so in one way.** -/
theorem unique (h : Loads ask size es t n found t') {n' : Nat} {found' : Except StoreError (List Entity)}
    {t'' : τ} (h' : Loads ask size es t n' found' t'') : n' = n ∧ found' = found ∧ t'' = t' := by
  induction h generalizing n' with
  | failed hask =>
    cases h' with
    | failed hask' =>
      cases hask.symm.trans hask'
      exact ⟨rfl, rfl, rfl⟩
    | last hask' _ => cases hask.symm.trans hask'
    | more hask' _ _ => cases hask.symm.trans hask'
  | last hask hshort =>
    cases h' with
    | failed hask' => cases hask.symm.trans hask'
    | last hask' _ =>
      cases hask.symm.trans hask'
      exact ⟨rfl, rfl, rfl⟩
    | more hask' hfull' _ =>
      cases hask.symm.trans hask'
      exact absurd hshort (Nat.not_lt.2 hfull')
  | more hask hfull _ ih =>
    cases h' with
    | failed hask' => cases hask.symm.trans hask'
    | last hask' hshort' =>
      cases hask.symm.trans hask'
      exact absurd hshort' (Nat.not_lt.2 hfull)
    | more hask' _ hrest' =>
      cases hask.symm.trans hask'
      obtain ⟨rfl, rfl, rfl⟩ := ih hrest'
      exact ⟨rfl, rfl, rfl⟩

/-- A store that counts what it is asked for counts the windows, if asking changes nothing else. -/
theorem fetched {ask : Nat → Store → Except StoreError (List Entity) × Store} {s s' : Store}
    (hask : ∀ offset s, (ask offset s).2 = { s with fetches := s.fetches + 1 })
    (h : Loads ask size es s n found s') : s' = { s with fetches := s.fetches + n } := by
  have hstep : ∀ {offset : Nat} {s s' : Store} {found : Except StoreError (List Entity)},
      ask offset s = (found, s') → s' = { s with fetches := s.fetches + 1 } := by
    intro offset s s' found h
    rw [← hask offset s, h]
  induction h with
  | failed hfirst => exact hstep hfirst
  | last hfirst _ => exact hstep hfirst
  | more hfirst _ _ ih =>
    rw [ih, hstep hfirst, Nat.add_assoc, Nat.add_comm 1]

section Fuel

variable {b : Backend τ} {q : BaseQuery} {order : Option Order}

/-- **The loop is not cut short** where as many windows may be loaded as it takes. -/
theorem fetchWindows_eq
    (h : Loads (fun offset => b.fetch q order offset size) size es t n found t') {fuel : Nat}
    (hfuel : n ≤ fuel) : fetchWindows b q order size fuel es t = (found, t') := by
  induction h generalizing fuel with
  | failed hask =>
    cases fuel with
    | zero => exact absurd hfuel (by decide)
    | succ fuel =>
      unfold fetchWindows
      rw [hask]
  | last hask hshort =>
    cases fuel with
    | zero => exact absurd hfuel (by decide)
    | succ fuel =>
      unfold fetchWindows
      rw [hask]
      exact if_pos hshort
  | more hask hfull _ ih =>
    cases fuel with
    | zero => exact absurd hfuel (Nat.not_succ_le_zero _)
    | succ fuel =>
      unfold fetchWindows
      rw [hask]
      exact (if_neg (Nat.not_lt.2 hfull)).trans (ih (Nat.le_of_succ_le_succ hfuel))

/-- What the loop comes to is what is loaded, if the bound of the store admits its windows. -/
theorem fetchAll_eq {l : Listing σ τ} {s : ListingState σ τ}
    (h : Loads (fun offset => l.backend.fetch q order offset l.windowSize) l.windowSize [] s.store n
      found t')
    (hbound : n ≤ l.backend.bound q s.store / l.windowSize + 1) :
    l.fetchAll q order s =
      ((found.map fun es => es.map fun e => { entity := e }).mapError .store,
        { s with store := t' }) := by
  unfold windowSize at h hbound
  unfold fetchAll
  dsimp only
  rw [h.fetchWindows_eq hbound]
  cases found <;> rfl

end Fuel

end Loads

end FieldQuery.Listing

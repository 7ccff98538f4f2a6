import FieldQuery.Proofs.Engine.Ceiling
import FieldQuery.Proofs.Engine.Meaning

/-!
# What is computed for one entity

* `outcomeWork`, `fieldWork`, `entityWork` — the work of a computation, of a field and of all the
  fields that an entity needs for it;
* `Holds` — the table of computed values holds what the fields that are done hand on;
* `Ready` — moreover, no field that is done hands on a failure.

The loop over the order of computation is proved by induction on the order: its invariant is that the
fields that are done come after what they need, and `Ready`.

Principal results: `computeOne_meets` — a field that finds what it needs has its recursive value,
`computeOrder_meets` and `computeEntity_meets` — the loop yields the recursive value of its last
field, with a failure told as `result` says.
-/

namespace FieldQuery.Engine

open Meaning

variable {σ : Type}

/-- The work of an outcome: the time it takes, and the memory of its value. -/
def outcomeWork (v : VirtualField) (e : Entity) (o : Outcome) : Work where
  time := o.duration
  memory := match v.accept e o with
    | .ok value => value.size
    | .error _ => 0

/-- The work of a field. -/
def fieldWork (c : Catalog) (policy : FailurePolicy) (e : Entity) (v : VirtualField) : Work :=
  match inputs c policy e (value c policy e) v with
  | .error _ => {}
  | .ok i => outcomeWork v e (v.computation e i)

/-- The work of the virtual field of a name. -/
def nameWork (c : Catalog) (policy : FailurePolicy) (e : Entity) (n : String) : Work :=
  match KeyMap.get? n c.virtualFields with
  | some v => fieldWork c policy e v
  | none => {}

/-- The work of a field and of all that it needs, on one entity. -/
def entityWork (c : Catalog) (policy : FailurePolicy) (v : VirtualField) (e : Entity) : Work :=
  Work.total (nameWork c policy e) (c.computationOrder v.name)

/-! ## One field -/

/-- A value that fits its field still has to fit the budget. -/
theorem takeOver_meets {b : Budget} {p p' : Progress σ} {duration : Nat} {value : Value}
    (hspent : p'.spent = p.spent + duration) (hused : p'.used = p.used)
    (hcancelled : p'.cancelled = p.cancelled) :
    Meets Agrees b p ⟨duration, value.size⟩ (takeOver b value p') (.ok value) := by
  unfold takeOver
  split
  · rename_i err htime
    obtain ⟨hceiling, hlate⟩ := Budget.checkTime_error htime
    refine ⟨.inr ⟨err, rfl, hceiling⟩, fun hfits => ?_, hcancelled⟩
    have htime := hfits.1
    dsimp only at htime
    omega
  · split
    · rename_i err used hcharge
      obtain ⟨hceiling, hfull⟩ := Budget.charge_error hcharge
      refine ⟨.inr ⟨err, rfl, hceiling⟩, fun hfits => ?_, hcancelled⟩
      have hmemory := hfits.2
      dsimp only at hmemory
      omega
    · rename_i u used hcharge
      have hcharged := Budget.charge_ok hcharge
      exact ⟨.inl rfl, fun _ => ⟨rfl, by dsimp only; omega, by dsimp only; omega⟩, hcancelled⟩

/-- **One computation yields what its outcome counts for.** -/
theorem compute_meets (b : Batch) {v : VirtualField} {e : Entity} {i : Inputs}
    (hkeeps : (v.computation e i).cancels = false) (p : Progress σ) :
    Meets Agrees b.budget p (outcomeWork v e (v.computation e i)) (compute b v e i p)
      (v.accept e (v.computation e i)) := by
  unfold compute outcomeWork VirtualField.accept
  generalize v.computation e i = o at hkeeps
  have hcancelled : (p.after o).cancelled = p.cancelled := by simp [hkeeps]
  dsimp only
  cases o.value with
  | error reason => exact ⟨.inl rfl, fun _ => ⟨rfl, by simp, by simp⟩, hcancelled⟩
  | ok value =>
    by_cases hnull : (value.isNull && !v.nullable) = true
    · simp only [if_pos hnull]
      exact ⟨.inl rfl, fun _ => ⟨rfl, by simp, by simp⟩, hcancelled⟩
    · simp only [if_neg hnull]
      exact takeOver_meets (by simp) (by simp) (by simpa using hcancelled)

/-- The table of computed values holds what the fields that are done hand on. -/
def Holds (c : Catalog) (policy : FailurePolicy) (e : Entity) (done : List String)
    (computed : List (String × Value)) : Prop :=
  ∀ n, List.lookup n computed =
    if n ∈ done then found? c policy e (value c policy e) n else none

/-- What one field finds in the table: the virtual fields that it needs are done, and do not hand on
a failure. -/
structure Ready (c : Catalog) (policy : FailurePolicy) (e : Entity) (done : List String)
    (computed : List (String × Value)) : Prop where
  keys : ∀ n ∈ done, n ∈ KeyMap.keys c.virtualFields
  faultless : ∀ n ∈ done, fault? c policy (value c policy e) n = none
  holds : Holds c policy e done computed

variable {c : Catalog} {policy : FailurePolicy} {e : Entity}

/-- A virtual field that hands on no failure hands on a value. -/
theorem found?_isSome {n : String} (hn : n ∈ KeyMap.keys c.virtualFields)
    (hfault : fault? c policy (value c policy e) n = none) :
    (found? c policy e (value c policy e) n).isSome = true := by
  obtain ⟨v, hv⟩ := Catalog.get?_of_mem_keys hn
  rw [fault?_of_get? hv] at hfault
  rw [found?_of_get? hv]
  cases hcon : contribution policy v (value c policy e v) with
  | ok value => rfl
  | error err =>
    rw [hcon] at hfault
    cases hfault

/-- The table and the attributes together are what a field is given. -/
theorem Ready.lookup {done : List String} {computed : List (String × Value)}
    (h : Ready c policy e done computed) {d : String}
    (hd : d ∈ KeyMap.keys c.virtualFields → d ∈ done) :
    (List.lookup d computed).or (e.attribute? d) = found? c policy e (value c policy e) d := by
  rw [h.holds d]
  by_cases hmem : d ∈ done
  · obtain ⟨a, ha⟩ := Option.isSome_iff_exists.1
      (found?_isSome (h.keys d hmem) (h.faultless d hmem))
    rw [if_pos hmem, ha]
    rfl
  · rw [if_neg hmem, Option.none_or]
    cases hget : KeyMap.get? d c.virtualFields with
    | none => exact (found?_of_get?_none hget).symm
    | some w => exact absurd (hd (Catalog.mem_keys_of_get? hget)) hmem

/-- No dependency of a field hands on a failure. -/
theorem Ready.dependencies {done : List String} {computed : List (String × Value)}
    (h : Ready c policy e done computed) {v : VirtualField}
    (hdeps : ∀ d ∈ v.dependencies, d ∈ KeyMap.keys c.virtualFields → d ∈ done) :
    v.dependencies.findSome? (fault? c policy (value c policy e)) = none := by
  refine List.findSome?_eq_none_iff.2 fun d hd => ?_
  cases hget : KeyMap.get? d c.virtualFields with
  | none => exact fault?_of_get?_none hget
  | some w => exact h.faultless d (hdeps d hd (Catalog.mem_keys_of_get? hget))

/-- A field that is given what it needs is given its inputs. -/
theorem resolveInputs_eq {done : List String} {computed : List (String × Value)}
    (h : Ready c policy e done computed) {v : VirtualField}
    (hdeps : ∀ d ∈ v.dependencies, d ∈ KeyMap.keys c.virtualFields → d ∈ done) (b : Batch)
    (cancelled : Bool) :
    resolveInputs b v e computed cancelled =
      (inputs c policy e (value c policy e) v).map fun i =>
        { i with deadline := some b.deadline, cancelled := b.heeds && cancelled } := by
  have hcolumns : resolveColumns v e computed =
      gather (found? c policy e (value c policy e)) (.missingDependency v.name e.ref)
        v.dependencies :=
    gather_congr fun d hd => h.lookup (hdeps d hd)
  unfold resolveInputs inputs resolveRelations
  rw [h.dependencies hdeps, hcolumns]
  dsimp only
  cases gather (found? c policy e (value c policy e)) (.missingDependency v.name e.ref)
      v.dependencies with
  | error err => rfl
  | ok columns =>
    dsimp only
    cases gather e.relation? (.missingRelation v.name e.ref) v.relationships with
    | error err => rfl
    | ok relations => rfl

/-- **A field that is given what it needs has its recursive value.** -/
theorem computeOne_meets {en : Engine σ} (hc : en.catalog.Lawful) (hpure : en.catalog.IsPure)
    (hcache : en.cache = none) {policy : FailurePolicy} {done : List String}
    {computed : List (String × Value)} (h : Ready en.catalog policy e done computed)
    {v : VirtualField} (hv : KeyMap.get? v.name en.catalog.virtualFields = some v)
    (hdeps : ∀ d ∈ v.dependencies, d ∈ KeyMap.keys en.catalog.virtualFields → d ∈ done) (b : Batch)
    (p : Progress σ) :
    Meets Agrees b.budget p (fieldWork en.catalog policy e v) (en.computeOne b v e computed p)
      (value en.catalog policy e v) := by
  have hv' := hpure _ (KeyMap.mem_of_get? hv)
  rw [value_eq hc policy e hv]
  unfold computeOne fieldWork step
  rw [resolveInputs_eq h hdeps]
  cases hinputs : inputs en.catalog policy e (value en.catalog policy e) v with
  | error err => exact .still _ (.inl rfl)
  | ok i =>
    have hslot : ∀ i, en.slot? v e i = none := by
      intro i
      unfold slot?
      rw [hcache]
    dsimp only [Except.map]
    rw [hslot]
    have hmeets := compute_meets b (hv'.keeps e
      { i with deadline := some b.deadline, cancelled := b.heeds && p.cancelled }) p
    rw [hv'.looks] at hmeets
    rw [hv'.looks e i]
    exact hmeets

/-! ## The fields that an entity needs -/

/-- A field that is done is added to the table with what it hands on. -/
theorem Ready.cons {done : List String} {computed : List (String × Value)}
    (h : Ready c policy e done computed) {n : String} {v : VirtualField} {a : Value}
    (hv : KeyMap.get? n c.virtualFields = some v)
    (hcon : contribution policy v (value c policy e v) = .ok a) :
    Ready c policy e (n :: done) ((n, a) :: computed) where
  keys := List.forall_mem_cons.2 ⟨Catalog.mem_keys_of_get? hv, h.keys⟩
  faultless := List.forall_mem_cons.2 ⟨by rw [fault?_of_get? hv, hcon]; rfl, h.faultless⟩
  holds := by
    intro m
    rw [List.lookup_cons]
    by_cases hm : m = n
    · subst hm
      rw [if_pos List.mem_cons_self, found?_of_get? hv, hcon]
      simp [Except.toOption]
    · have hne : (m == n) = false := by simpa using hm
      rw [hne, h.holds m]
      simp [hm]

/-- A field that is given what it needs fails by itself only. -/
theorem Ready.own_failure {done : List String} {computed : List (String × Value)}
    (h : Ready c policy e done computed) (hc : c.Lawful) {v : VirtualField}
    (hv : KeyMap.get? v.name c.virtualFields = some v)
    (hdeps : ∀ d ∈ v.dependencies, d ∈ KeyMap.keys c.virtualFields → d ∈ done)
    {err : ComputationError} (herr : value c policy e v = .error err) :
    err.field = v.name ∧ err.isBatchLevel = false := by
  rw [value_eq hc policy e hv] at herr
  rcases step_error herr with hfault | hown
  · rw [h.dependencies hdeps] at hfault
    cases hfault
  · exact hown.2

/-- A field that hands on the failure of another one is told of by the name of that one. -/
theorem report_of_fault {target : VirtualField}
    (htarget : KeyMap.get? target.name c.virtualFields = some target) {err : ComputationError}
    (hfault : fault? c policy (value c policy e) target.name = some err)
    (hfield : err.field ≠ target.name) :
    report target e (value c policy e target) =
      .error (.dependencyFailed target.name e.ref err.field) := by
  rw [fault?_of_get? htarget] at hfault
  cases hcon : contribution policy target (value c policy e target) with
  | ok a =>
    rw [hcon] at hfault
    cases hfault
  | error err' =>
    rw [hcon] at hfault
    cases hfault
    rw [(contribution_error hcon).2]
    exact if_neg hfield

/-- **The loop over the order of computation yields the recursive value of its last field.** -/
theorem computeOrder_meets {en : Engine σ} (hc : en.catalog.Lawful) (hpure : en.catalog.IsPure)
    (hcache : en.cache = none) (b : Batch)
    (htarget : KeyMap.get? b.target.name en.catalog.virtualFields = some b.target)
    (before : List String) :
    ∀ (done : List String) (computed : List (String × Value)) (p : Progress σ),
      Walk.Finished en.catalog.references ((before ++ [b.target.name]).reverse ++ done) →
      (∀ n ∈ before, n ∈ KeyMap.keys en.catalog.virtualFields) →
      Ready en.catalog en.settings.failurePolicy e done computed →
      (before ++ [b.target.name]).findSome?
          (fault? en.catalog en.settings.failurePolicy
            (value en.catalog en.settings.failurePolicy e)) =
        fault? en.catalog en.settings.failurePolicy
          (value en.catalog en.settings.failurePolicy e) b.target.name →
      Meets Agrees b.budget p
        (Work.total (nameWork en.catalog en.settings.failurePolicy e) (before ++ [b.target.name]))
        (en.computeOrder b e (before ++ [b.target.name]) computed p)
        (report b.target e (value en.catalog en.settings.failurePolicy e b.target)) := by
  induction before with
  | nil =>
    intro done computed p hfinished _ hready _
    have hdeps : ∀ d ∈ b.target.dependencies, d ∈ KeyMap.keys en.catalog.virtualFields →
        d ∈ done := fun d hd hkey =>
      hfinished.2.1 d (Catalog.mem_references.2 ⟨b.target, htarget, hd, hkey⟩)
    have hone := computeOne_meets hc hpure hcache hready htarget hdeps b p
    have hown : ∀ err, value en.catalog en.settings.failurePolicy e b.target = .error err →
        err.field = b.target.name ∧ err.isBatchLevel = false :=
      fun _ => hready.own_failure hc htarget hdeps
    have hreport : report b.target e (value en.catalog en.settings.failurePolicy e b.target) =
        value en.catalog en.settings.failurePolicy e b.target := by
      cases hvalue : value en.catalog en.settings.failurePolicy e b.target with
      | ok a => rfl
      | error err => exact if_pos (hown err hvalue).1
    have hrun : en.computeOrder b e [b.target.name] computed p =
        en.computeOne b b.target e computed p := by
      unfold computeOrder
      rw [hc.virtual?_eq (Catalog.mem_keys_of_get? htarget), htarget]
      dsimp only
      cases hrun : en.computeOne b b.target e computed p with
      | mk r p' =>
        cases r with
        | ok a => simp [computeOrder]
        | error err => simp
    show Meets Agrees b.budget p ((nameWork _ _ e b.target.name).add {}) _ _
    rw [List.nil_append, hrun, hreport]
    unfold nameWork
    rw [htarget]
    exact hone.spared
  | cons n before ih =>
    intro done computed p hfinished hkeys hready hfirst
    obtain ⟨v, hv⟩ := Catalog.get?_of_mem_keys (hkeys n List.mem_cons_self)
    have hname : v.name = n := hc.name_of_get? hv
    subst hname
    have hfinished' : Walk.Finished en.catalog.references
        ((before ++ [b.target.name]).reverse ++ v.name :: done) := by
      simpa using hfinished
    have hne : v.name ≠ b.target.name := by
      have := hfinished'.nodup
      intro heq
      simp [heq] at this
    have hdeps : ∀ d ∈ v.dependencies, d ∈ KeyMap.keys en.catalog.virtualFields → d ∈ done :=
      fun d hd hkey => hfinished'.of_append.2.1 d (Catalog.mem_references.2 ⟨v, hv, hd, hkey⟩)
    have hone := computeOne_meets hc hpure hcache hready hv hdeps b p
    have hown : ∀ err, value en.catalog en.settings.failurePolicy e v = .error err →
        err.field = v.name ∧ err.isBatchLevel = false :=
      fun _ => hready.own_failure hc hv hdeps
    -- what follows once the field has handed on a value
    have hnext : ∀ a p', contribution en.settings.failurePolicy v
          (value en.catalog en.settings.failurePolicy e v) = .ok a →
        Meets Agrees b.budget p' (Work.total (nameWork en.catalog en.settings.failurePolicy e)
            (before ++ [b.target.name]))
          (en.computeOrder b e (before ++ [b.target.name]) ((v.name, a) :: computed) p')
          (report b.target e (value en.catalog en.settings.failurePolicy e b.target)) := by
      intro a p' hcon
      refine ih _ _ p' hfinished' (fun m hm => hkeys m (List.mem_cons_of_mem _ hm))
        (hready.cons hv hcon) ?_
      rw [← hfirst, List.cons_append, List.findSome?_cons, fault?_of_get? hv, hcon]
      rfl
    have hwork : Work.total (nameWork en.catalog en.settings.failurePolicy e)
          (v.name :: before ++ [b.target.name]) =
        (fieldWork en.catalog en.settings.failurePolicy e v).add
          (Work.total (nameWork en.catalog en.settings.failurePolicy e)
            (before ++ [b.target.name])) := by
      rw [List.cons_append, Work.total]
      unfold nameWork
      rw [hv]
    rw [hwork, List.cons_append, computeOrder, hc.virtual?_eq (Catalog.mem_keys_of_get? hv), hv]
    dsimp only
    cases hrun : en.computeOne b v e computed p with
    | mk r p' =>
      rw [hrun] at hone
      cases r with
      | ok a =>
        rcases hone.agrees with heq | ⟨err, herr, -⟩
        · refine hone.chain (hnext a p' ?_)
          rw [← show _ = value _ _ _ _ from heq]
          rfl
        · cases herr
      | error err =>
        dsimp only
        split
        · rename_i hbatch
          have hlevel : err.isBatchLevel = true := hbatch.resolve_left hne
          have hvalue : Except.error err ≠ value en.catalog en.settings.failurePolicy e v := by
            intro heq
            rw [(hown err heq.symm).2] at hlevel
            cases hlevel
          refine (hone.settled ?_ fun heq => absurd heq hvalue).spared
          rcases hone.agrees with heq | ⟨err', herr, hceiling⟩
          · exact absurd heq hvalue
          · exact .inr ⟨err', herr, hceiling⟩
        · rename_i hlevel
          have hvalue : value en.catalog en.settings.failurePolicy e v = .error err := by
            rcases hone.agrees with heq | ⟨err', herr, hceiling⟩
            · exact heq.symm
            · cases herr
              exact absurd (.inr hceiling.isBatchLevel) hlevel
          split
          · rename_i hpolicy
            refine hone.chain (hnext _ p' ?_)
            rw [hvalue]
            exact if_pos hpolicy
          · rename_i hpolicy
            -- the first failure on the way to the target is the target's
            have hfault : fault? en.catalog en.settings.failurePolicy
                (value en.catalog en.settings.failurePolicy e) b.target.name = some err := by
              rw [← hfirst, List.cons_append, List.findSome?_cons, fault?_of_get? hv, hvalue]
              simp [contribution, hpolicy]
            have hfield := (hown err hvalue).1
            have hreport := report_of_fault htarget hfault (hfield ▸ hne)
            rw [hfield] at hreport
            rw [hreport]
            exact (hone.settled (.inl rfl) fun _ => rfl).spared

/-- **What a batch yields for one entity.** -/
theorem computeEntity_meets {en : Engine σ} (hc : en.catalog.Lawful) (hpure : en.catalog.IsPure)
    (hcache : en.cache = none) {b : Batch}
    (htarget : KeyMap.get? b.target.name en.catalog.virtualFields = some b.target)
    (horder : b.order = en.catalog.computationOrder b.target.name) (e : Entity) (p : Progress σ) :
    Meets Agrees b.budget p (entityWork en.catalog en.settings.failurePolicy b.target e)
      (en.computeEntity b e p) (result en.catalog en.settings.failurePolicy b.target e) := by
  have hkey := Catalog.mem_keys_of_get? htarget
  obtain ⟨hfinished, ⟨before, hbefore⟩, -⟩ := hc.computationOrder_spec hkey
  have hfirst := findSome?_fault hc en.settings.failurePolicy e hkey
  have hready : Ready en.catalog en.settings.failurePolicy e [] [] :=
    ⟨by simp, by simp, fun n => by simp⟩
  have hkeys : ∀ n ∈ before, n ∈ KeyMap.keys en.catalog.virtualFields := by
    intro n hn
    refine hc.mem_keys_of_order hkey ?_
    rw [hbefore]
    exact List.mem_append_left _ hn
  unfold computeEntity
  split
  · rename_i err htime
    exact .late htime
  · unfold entityWork
    rw [horder]
    rw [hbefore] at hfinished hfirst ⊢
    exact computeOrder_meets hc hpure hcache b htarget before [] [] p (by simpa using hfinished)
      hkeys hready hfirst

end FieldQuery.Engine

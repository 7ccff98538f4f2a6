import FieldQuery.Request.Params

/-!
# Pages

* `Paginator` — where a page stands among all pages of a result, with links to others;
* `Paginator.ofPage` — the paginator of a page. A page beyond the last one is empty.

Page numbers and offsets stay within 64 bits.
-/

namespace FieldQuery

open Text

/-- Links to other pages. -/
structure PageLinks where
  first : String
  last : String
  prev : Option String
  next : Option String
  deriving DecidableEq, Repr

/-- Where a page stands among all pages. -/
structure Paginator where
  currentPage : Nat
  perPage : Nat
  total : Nat
  lastPage : Nat
  /-- The place of the first row of the page, counted from one. -/
  start : Option Nat
  /-- The place of the last row of the page. -/
  stop : Option Nat
  links : PageLinks
  deriving DecidableEq, Repr

namespace Paginator

/-- The number of the last page; a result without rows has one page too. -/
def lastPageOf (total perPage : Nat) : Nat := max 1 ((total + perPage - 1) / perPage)

/-- The rows before a page. -/
def offsetOf (page perPage : Nat) : Nat := min ((page - 1) * perPage) wordMax

/-- The link to a page: the same request for another page. -/
def link (basePath : String) (p : Params) (page : Nat) : String :=
  basePath ++ "?" ++ p.queryText [("page", String.ofList (natNumeral page))]

/-- The paginator of a page. -/
def ofPage (total page perPage : Nat) (basePath : String) (p : Params) : Paginator :=
  let perPage := max 1 perPage
  let page := max 1 page
  let last := lastPageOf total perPage
  let offset := offsetOf page perPage
  let filled := decide (offset < total)
  { currentPage := page
    perPage := perPage
    total := total
    lastPage := last
    start := if filled then some (offset + 1) else none
    stop := if filled then some (min (offset + perPage) total) else none
    links := {
      first := link basePath p 1
      last := link basePath p last
      prev := if 1 < page then some (link basePath p (min (page - 1) last)) else none
      next := if page < last then some (link basePath p (page + 1)) else none } }

/-- The rows before the page. -/
def offset (p : Paginator) : Nat := offsetOf p.currentPage p.perPage

/-- Whether the page has a next one. -/
def hasMore (p : Paginator) : Bool := p.currentPage < p.lastPage

/-- The links as JSON. -/
def linksJson (l : PageLinks) : Json :=
  .object [("first", .text l.first), ("last", .text l.last),
    ("prev", .ofOption .text l.prev), ("next", .ofOption .text l.next)]

/-- The paginator as JSON. -/
def toJson (p : Paginator) : Json :=
  .object [
    ("current_page", .ofNat p.currentPage),
    ("per_page", .ofNat p.perPage),
    ("total", .ofNat p.total),
    ("last_page", .ofNat p.lastPage),
    ("from", .ofOption .ofNat p.start),
    ("to", .ofOption .ofNat p.stop),
    ("links", linksJson p.links)]

end Paginator

end FieldQuery

import FieldQuery.Proofs.Listing.Consecutive
import FieldQuery.Proofs.Request.QueryText

/-!
# Walking along the links of pages

* `Paginator.rows` — the places of the rows of a page;
* `Params.atPage` — the same request with another page number, in the place of its own or at the end;
* `LeadsTo` — a link whose query is read as a request for a page;
* `Tiles` — the pages of a result divide its rows among them;
* `Linked` — the links of a page lead where they should;
* `Walk` — the pages that are seen by whoever starts from a link and follows the links to the next page.

The rows of a page are those behind its offset, which only saturates where there are no rows left
(`rows_ofPage`).  A query string is read back as the parameters that it is made from, so that the next link
of a page is that of the request for it.

Principal results: `tiles_ofPage`, `linked_ofPage` and `walk_first`, and together `ofPage_walk`.
-/

namespace FieldQuery

open Text

/-- The same request with another page number: in the place of its own, or at the end if it has none. -/
def Params.atPage (p : Params) (page : Nat) : Params where
  pairs :=
    if "page" ∈ p.pairs.map (·.1) then
      p.pairs.map fun pair =>
        if pair.1 = "page" then ("page", String.ofList (natNumeral page)) else pair
    else p.pairs ++ [("page", String.ofList (natNumeral page))]

theorem Params.Distinct.insert_page {p : Params} (h : p.Distinct) (page : Nat) :
    p.insert "page" (String.ofList (natNumeral page)) = p.atPage page := by
  unfold Params.insert atPage
  split
  · rename_i hmem
    rw [Assoc.set_of_mem h hmem]
  · rename_i hnew
    rw [Assoc.set_of_not_mem hnew]

namespace Paginator

/-! ## Rows -/

/-- The places of the rows of a page, counted from one. -/
def rows (x : Paginator) : List Nat :=
  match x.start, x.stop with
  | some a, some b => List.range' a (b + 1 - a)
  | _, _ => []

/-- The pages of a result divide its rows among them. -/
structure Tiles (pages : Nat → Paginator) (total perPage last : Nat) : Prop where
  /-- One page after the other has the rows in order, each once. -/
  covers : (List.range' 1 last).flatMap (fun page => (pages page).rows) = List.range' 1 total
  /-- No page up to the last one is empty, unless there are no rows. -/
  nonempty : 0 < total → ∀ page, 1 ≤ page → page ≤ last → ∃ a b, (pages page).start = some a ∧
    (pages page).stop = some b ∧ a ≤ b
  /-- No page has more rows than fit. -/
  size : ∀ page a b, (pages page).start = some a → (pages page).stop = some b → b + 1 - a ≤ perPage
  /-- A page beyond the last one is empty. -/
  beyond : ∀ page, last < page → (pages page).start = none ∧ (pages page).stop = none

section Rows

variable {total perPage : Nat} (hfits : total + perPage < 2 ^ 64) (basePath : String) (p : Params)

include hfits

/-- The offset of a page is not saturated where a row is behind it. -/
theorem offsetOf_cases (page size : Nat) :
    (page - 1) * size < total ∧ offsetOf page size = (page - 1) * size ∨
      total ≤ (page - 1) * size ∧ ¬ offsetOf page size < total := by
  have hword : wordMax = 2 ^ 64 - 1 := rfl
  unfold offsetOf
  omega

theorem start_stop_ofPage (page : Nat) :
    (max 1 page - 1) * max 1 perPage < total ∧
        (ofPage total page perPage basePath p).start = some ((max 1 page - 1) * max 1 perPage + 1) ∧
        (ofPage total page perPage basePath p).stop =
          some (min ((max 1 page - 1) * max 1 perPage + max 1 perPage) total) ∨
      total ≤ (max 1 page - 1) * max 1 perPage ∧
        (ofPage total page perPage basePath p).start = none ∧
        (ofPage total page perPage basePath p).stop = none := by
  unfold ofPage
  dsimp only
  rcases offsetOf_cases hfits (max 1 page) (max 1 perPage) with ⟨hrow, hoffset⟩ | ⟨hnone, hoffset⟩
  · rw [hoffset, decide_eq_true hrow]
    exact .inl ⟨hrow, rfl, rfl⟩
  · rw [decide_eq_false hoffset]
    exact .inr ⟨hnone, rfl, rfl⟩

/-- **The rows of a page** are those behind its offset, as many as fit. -/
theorem rows_ofPage (page : Nat) :
    (ofPage total page perPage basePath p).rows = List.range' ((max 1 page - 1) * max 1 perPage + 1)
      (min (max 1 perPage) (total - (max 1 page - 1) * max 1 perPage)) := by
  unfold rows
  rcases start_stop_ofPage hfits basePath p page with ⟨hrow, hstart, hstop⟩ | ⟨hnone, hstart, hstop⟩
  · rw [hstart, hstop]
    dsimp only
    congr 1
    omega
  · rw [hstart, hstop, Nat.sub_eq_zero_of_le hnone, Nat.min_zero]
    rfl

/-- The first pages have the first rows. -/
theorem flatMap_rows (n : Nat) :
    (List.range' 1 n).flatMap (fun page => (ofPage total page perPage basePath p).rows) =
      List.range' 1 (min (n * max 1 perPage) total) := by
  induction n with
  | zero => simp
  | succ n ih =>
    have hpage : max 1 (1 + n) - 1 = n := by omega
    rw [List.range'_1_concat, List.flatMap_append, ih, List.flatMap_singleton,
      rows_ofPage hfits basePath p, hpage, Nat.succ_mul]
    rcases Nat.le_total (n * max 1 perPage) total with hle | hle
    · rw [Nat.min_eq_left hle, Nat.add_comm (n * max 1 perPage) 1, List.range'_append_1]
      congr 1
      omega
    · rw [Nat.sub_eq_zero_of_le hle, Nat.min_zero, List.range'_zero, List.append_nil]
      congr 1
      omega

/-- **The pages of a result divide its rows among them.** -/
theorem tiles_ofPage :
    Tiles (fun page => ofPage total page perPage basePath p) total (max 1 perPage)
      (lastPageOf total (max 1 perPage)) where
  covers := by
    rw [flatMap_rows hfits, Nat.min_eq_right (le_lastPageOf_mul (by omega))]
  nonempty := by
    intro htotal page hpos hpage
    have hrow := (@le_lastPageOf total (max 1 perPage) page (by omega)).1 hpage
    rcases start_stop_ofPage hfits basePath p page with ⟨hbehind, hstart, hstop⟩ | ⟨hnone, -⟩
    · exact ⟨_, _, hstart, hstop, by omega⟩
    · rw [Nat.max_eq_right hpos] at hnone
      rcases hrow with hrow | hrow
      · omega
      · obtain rfl : page = 1 := by omega
        simp at hnone
        omega
  size := by
    intro page a b ha hb
    rcases start_stop_ofPage hfits basePath p page with ⟨-, hstart, hstop⟩ | ⟨-, hstart, -⟩
    · cases ha.symm.trans hstart
      cases hb.symm.trans hstop
      omega
    · cases ha.symm.trans hstart
  beyond := by
    intro page hpage
    have hrow := (@le_lastPageOf total (max 1 perPage) page (by omega)).not.1 (by omega)
    rcases start_stop_ofPage hfits basePath p page with ⟨hlate, -⟩ | ⟨-, hnone⟩
    · have hpos : max 1 page = page := by
        unfold lastPageOf at hpage
        omega
      rw [hpos] at hlate
      exact absurd (.inl hlate) hrow
    · exact hnone

end Rows

/-! ## Links -/

/-- A link whose query is read as a request for a page. -/
def LeadsTo (basePath : String) (p : Params) (link : String) (page : Nat) : Prop :=
  ∃ query, link = basePath ++ "?" ++ query ∧ Params.parseQuery query = p.atPage page

/-- The links of a page lead where they should. -/
structure Linked (basePath : String) (p : Params) (x : Paginator) : Prop where
  first : LeadsTo basePath p x.links.first 1
  last : LeadsTo basePath p x.links.last x.lastPage
  prev : ∀ link, x.links.prev = some link → LeadsTo basePath p link (min (x.currentPage - 1) x.lastPage)
  next : ∀ link, x.links.next = some link → LeadsTo basePath p link (x.currentPage + 1)
  hasPrev : x.links.prev.isSome = true ↔ 1 < x.currentPage
  hasNext : x.links.next.isSome = true ↔ x.currentPage < x.lastPage

/-- The query of a link is read back. -/
theorem parseQuery_link {p : Params} (h : p.Built) (page : Nat) :
    Params.parseQuery (p.queryText [("page", String.ofList (natNumeral page))]) =
      p.insert "page" (String.ofList (natNumeral page)) := by
  rw [Params.queryText_insertAll]
  exact Params.parseQuery_queryText_nil (h.distinct.insertAll _)

theorem leadsTo_link {p : Params} (h : p.Built) (basePath : String) (page : Nat) :
    LeadsTo basePath p (link basePath p page) page :=
  ⟨_, rfl, (parseQuery_link h page).trans (h.distinct.insert_page page)⟩

/-- **The links of a page lead to the first and the last page and to those beside it**, if there are any. -/
theorem linked_ofPage {p : Params} (h : p.Built) (total page perPage : Nat) (basePath : String) :
    Linked basePath p (ofPage total page perPage basePath p) where
  first := leadsTo_link h basePath 1
  last := leadsTo_link h basePath _
  prev := by
    intro link hlink
    unfold ofPage at hlink
    dsimp only at hlink
    split at hlink
    · cases hlink
      exact leadsTo_link h basePath _
    · cases hlink
  next := by
    intro link hlink
    unfold ofPage at hlink
    dsimp only at hlink
    split at hlink
    · cases hlink
      exact leadsTo_link h basePath _
    · cases hlink
  hasPrev := by
    unfold ofPage
    dsimp only
    split <;> simp_all
  hasNext := by
    unfold ofPage
    dsimp only
    split <;> simp_all

/-! ## Walks -/

section Walks

variable (total perPage : Nat) (basePath : String) (pages : PageSettings)

/-- The page that a query asks for. -/
def answer (query : String) : Paginator :=
  ofPage total (Options.ofParams (Params.parseQuery query) pages).page perPage basePath
    (Params.parseQuery query)

/-- The pages that are seen by whoever starts from a link and follows the links to the next page, until there
is none. -/
inductive Walk : String → List Nat → Prop
  | stops {query : String} (hnone : (answer total perPage basePath pages query).links.next = none) :
      Walk (basePath ++ "?" ++ query) [(answer total perPage basePath pages query).currentPage]
  | follows {query link : String} {visited : List Nat}
      (hnext : (answer total perPage basePath pages query).links.next = some link)
      (hrest : Walk link visited) : Walk (basePath ++ "?" ++ query)
        ((answer total perPage basePath pages query).currentPage :: visited)

variable {total perPage basePath pages}

/-- The answer to a link is the page that it leads to. -/
theorem answer_link {p : Params} (h : p.Built) {page : Nat} (hpos : 0 < page) (hpage : page ≤ wordMax) :
    answer total perPage basePath pages
        (p.queryText [("page", String.ofList (natNumeral page))]) =
      ofPage total page perPage basePath (p.insert "page" (String.ofList (natNumeral page))) := by
  unfold answer
  rw [parseQuery_link h, (p.turns_numeral hpos hpage).options pages]
  rfl

theorem eq_of_link {query query' : String} (h : basePath ++ "?" ++ query = basePath ++ "?" ++ query') :
    query = query' := by
  have htexts := congrArg String.toList h
  simp only [String.toList_append] at htexts
  exact String.toList_inj.1 (List.append_cancel_left htexts)

/-- The next link of a page that is answered for a link. -/
theorem next_link {p : Params} {page : Nat} (hpos : 0 < page) :
    (ofPage total page perPage basePath p).links.next =
      if page < lastPageOf total (max 1 perPage) then some (link basePath p (page + 1)) else none := by
  unfold ofPage
  dsimp only
  rw [Nat.max_eq_right hpos]

/-- The first step of a walk from a link to a page. -/
theorem walk_link_iff {p : Params} (h : p.Built) {page : Nat} (hpos : 0 < page) (hpage : page ≤ wordMax)
    (visited : List Nat) :
    Walk total perPage basePath pages (link basePath p page) visited ↔
      lastPageOf total (max 1 perPage) ≤ page ∧ visited = [page] ∨
        page < lastPageOf total (max 1 perPage) ∧ ∃ rest, visited = page :: rest ∧
          Walk total perPage basePath pages
            (link basePath (p.insert "page" (String.ofList (natNumeral page))) (page + 1)) rest := by
  have hanswer := @answer_link total perPage basePath pages p h page hpos hpage
  have hnext := @next_link total perPage basePath
    (p.insert "page" (String.ofList (natNumeral page))) page hpos
  have hcurrent : ∀ q, (ofPage total page perPage basePath q).currentPage = page := fun q =>
    Nat.max_eq_right hpos
  rw [← hanswer] at hnext
  constructor
  · intro hwalk
    generalize hlink : link basePath p page = start at hwalk
    cases hwalk with
    | stops hnone =>
      cases eq_of_link hlink
      rw [hnone] at hnext
      rw [hanswer, hcurrent]
      refine .inl ⟨Nat.not_lt.1 fun hlt => ?_, rfl⟩
      rw [if_pos hlt] at hnext
      cases hnext
    | @follows _ link' rest hsome hrest =>
      cases eq_of_link hlink
      rw [hsome] at hnext
      rw [hanswer, hcurrent]
      split at hnext
      · rename_i hlt
        cases hnext
        exact .inr ⟨hlt, rest, rfl, hrest⟩
      · cases hnext
  · rintro (⟨hlast, rfl⟩ | ⟨hlt, rest, rfl, hrest⟩)
    · rw [if_neg (Nat.not_lt.2 hlast)] at hnext
      have hstops := Walk.stops hnext
      rw [hanswer, hcurrent] at hstops
      exact hstops
    · rw [if_pos hlt] at hnext
      have hfollows := Walk.follows hnext hrest
      rw [hanswer, hcurrent] at hfollows
      exact hfollows

/-- **A walk from a link to a page sees that page and all pages behind it, one after the other.** -/
theorem walk_link (hlast : lastPageOf total (max 1 perPage) ≤ wordMax) (n : Nat) :
    ∀ {p : Params} {page : Nat}, p.Built → 0 < page → page + n = lastPageOf total (max 1 perPage) →
      ∀ visited, Walk total perPage basePath pages (link basePath p page) visited ↔
        visited = List.range' page (n + 1) := by
  induction n with
  | zero =>
    intro p page h hpos hpage visited
    rw [walk_link_iff h hpos (by omega)]
    constructor
    · rintro (⟨-, rfl⟩ | ⟨hlt, -⟩)
      · rfl
      · omega
    · rintro rfl
      exact .inl ⟨by omega, rfl⟩
  | succ n ih =>
    intro p page h hpos hpage visited
    rw [walk_link_iff h hpos (by omega), List.range'_succ]
    have hrest := ih (h.insert "page" (String.ofList (natNumeral page))) (Nat.succ_pos page) (by omega)
    constructor
    · rintro (⟨hle, -⟩ | ⟨-, rest, rfl, hwalk⟩)
      · omega
      · rw [(hrest rest).1 hwalk]
    · rintro rfl
      exact .inr ⟨by omega, _, rfl, (hrest _).2 rfl⟩

/-- **A walk from the first page sees every page once.** -/
theorem walk_first (hfits : total + perPage < 2 ^ 64) {p : Params} (h : p.Built) (page : Nat)
    (visited : List Nat) :
    Walk total perPage basePath pages (ofPage total page perPage basePath p).links.first visited ↔
      visited = List.range' 1 (lastPageOf total (max 1 perPage)) := by
  have hword : wordMax = 2 ^ 64 - 1 := rfl
  have hdiv : (total + max 1 perPage - 1) / max 1 perPage ≤ total + max 1 perPage - 1 := Nat.div_le_self _ _
  have hlast : lastPageOf total (max 1 perPage) ≤ wordMax := by
    unfold lastPageOf
    omega
  have hpos : 1 ≤ lastPageOf total (max 1 perPage) := Nat.le_max_left _ _
  have hwalk := @walk_link total perPage basePath pages hlast
    (lastPageOf total (max 1 perPage) - 1) p 1 h Nat.one_pos (by omega) visited
  rw [Nat.sub_add_cancel hpos] at hwalk
  exact hwalk

end Walks

/-- **The pages of a result divide its rows among them, and their links walk through them.**  This is for
every total and every size of pages within 64 bits, for a page and a size of zero as for one, and for all
parameters that a request can have: the windows of the pages up to the last one are the rows in order, and
each link is the same request for another page, so that following the next links from the first page, or
from any page's link to it, sees each page once. -/
theorem ofPage_walk {total perPage : Nat} (hfits : total + perPage < 2 ^ 64) (basePath : String)
    {p : Params} (h : p.Built) :
    Tiles (fun page => ofPage total page perPage basePath p) total (max 1 perPage)
        (lastPageOf total (max 1 perPage)) ∧
      ∀ page, (ofPage total page perPage basePath p).currentPage = max 1 page ∧
        (ofPage total page perPage basePath p).lastPage = lastPageOf total (max 1 perPage) ∧
        Linked basePath p (ofPage total page perPage basePath p) ∧
        ∀ pages visited, Walk total perPage basePath pages
            (ofPage total page perPage basePath p).links.first visited ↔
          visited = List.range' 1 (lastPageOf total (max 1 perPage)) :=
  ⟨tiles_ofPage hfits basePath p, fun page => ⟨rfl, rfl, linked_ofPage h total page perPage basePath,
    fun _ visited => walk_first hfits h page visited⟩⟩

/-- A request for the second page of active users, with a name that has to be encoded. -/
def activeUsers : Params :=
  (((({} : Params).insert "status" "active").insert "page" "2").insert "a&b" "=")

/-- Ten users on pages of three: beyond the last page there are none, and the link back leads to it. -/
theorem ofPage_walk_activeUsers :
    10 + 3 < 2 ^ 64 ∧ activeUsers.Built ∧
    (List.range' 1 4).flatMap (fun page => (ofPage 10 page 3 "/users" activeUsers).rows) =
      List.range' 1 10 ∧
    (ofPage 10 2 3 "/users" activeUsers).rows = [4, 5, 6] ∧
    (ofPage 10 9 3 "/users" activeUsers).links.prev = some "/users?status=active&page=4&a%26b=%3D" ∧
    LeadsTo "/users" activeUsers "/users?status=active&page=4&a%26b=%3D" 4 ∧
    Walk 10 3 "/users" {} (ofPage 10 9 3 "/users" activeUsers).links.first [1, 2, 3, 4] := by
  have hfits : 10 + 3 < 2 ^ 64 := by decide
  have hbuilt : activeUsers.Built := .insert _ _ (.insert _ _ (.insert _ _ .empty))
  obtain ⟨htiles, hpage⟩ := ofPage_walk hfits "/users" hbuilt
  obtain ⟨-, -, hlinked, hwalk⟩ := hpage 9
  have hprev : (ofPage 10 9 3 "/users" activeUsers).links.prev =
      some "/users?status=active&page=4&a%26b=%3D" := by decide +kernel
  exact ⟨hfits, hbuilt, htiles.covers, by decide +kernel, hprev, hlinked.prev _ hprev,
    (hwalk {} _).2 rfl⟩

end Paginator

end FieldQuery

import Mathlib.Algebra.Order.Ring.Nat
import Mathlib.Data.List.Nodup

/-!
# Lists stored in pages

A list of items is stored in pages of equal width: the item at an index is found in the
page of the quotient at the remainder. A page is named by its address, and the contents
of all addresses are one function. The list grows and shrinks at its end; a page is taken
when the pages before it are full and is given back with its first item.
-/

namespace Paged

open List (getElem?_append_left getElem?_concat_length length_append length_singleton length_take)
open Nat (div_eq_of_lt mod_eq_of_lt mod_lt succ_mul)

universe u v
variable {α : Type u} {β : Type v} [DecidableEq α] {content other : α → Nat → β} {width : Nat}
  {items : List β} {pages : List α} {item : β} {page : α}

/-- The pages that a number of items needs. -/
def pageCount (width count : Nat) : Nat :=
  if count % width = 0 then count / width else count / width + 1

/-- One more item ends in the page of the quotient. -/
theorem pageCount_succ (pos : 0 < width) (count : Nat) :
    pageCount width (count + 1) = count / width + 1 := by
  have split := Nat.div_add_mod count width
  have small := mod_lt count pos
  by_cases full : count % width + 1 = width
  · have next : count + 1 = width * (count / width + 1) := by
      rw [Nat.mul_add, Nat.mul_one]
      omega
    rw [next, pageCount, if_pos (Nat.mul_mod_right _ _), Nat.mul_div_cancel_left _ pos]
  · have next : count + 1 = width * (count / width) + (count % width + 1) := by omega
    have less : count % width + 1 < width := by omega
    have remainder : (count + 1) % width = count % width + 1 := by
      rw [next, Nat.mul_add_mod, mod_eq_of_lt less]
    have quotient : (count + 1) / width = count / width := by
      rw [next, Nat.mul_add_div pos, div_eq_of_lt less, Nat.add_zero]
    rw [pageCount, if_neg (by omega), quotient]

/-- The pages are just enough for the items. -/
theorem pageCount_eq_iff (pos : 0 < width) (count pages : Nat) :
    pageCount width count = pages ↔ count ≤ pages * width ∧ pages * width < count + width := by
  have split := Nat.div_add_mod' count width
  have small := mod_lt count pos
  have least : count ≤ pageCount width count * width ∧
      pageCount width count * width < count + width := by
    by_cases full : count % width = 0
    · rw [pageCount, if_pos full]
      omega
    · rw [pageCount, if_neg full, succ_mul]
      omega
  constructor
  · rintro rfl
    exact least
  · rintro ⟨enough, few⟩
    have below : pageCount width count * width < (pages + 1) * width := by
      rw [succ_mul]
      omega
    have above : pages * width < (pageCount width count + 1) * width := by
      rw [succ_mul]
      omega
    have first := Nat.lt_of_mul_lt_mul_right below
    have second := Nat.lt_of_mul_lt_mul_right above
    omega

/-- The items are found in the pages, and no page is without an item. -/
structure Stored (content : α → Nat → β) (width : Nat) (items : List β) (pages : List α) :
    Prop where
  count : pages.length = pageCount width items.length
  found : ∀ index item, items[index]? = some item →
    ∃ page, pages[index / width]? = some page ∧ content page (index % width) = item

/-- Write one place of a page. -/
def write (content : α → Nat → β) (page : α) (place : Nat) (item : β) : α → Nat → β :=
  fun address index => if address = page ∧ index = place then item else content address index

theorem write_same (content : α → Nat → β) (page : α) (place : Nat) (item : β) :
    write content page place item page place = item := by
  rw [write, if_pos ⟨rfl, rfl⟩]

theorem write_page (content : α → Nat → β) {page addr : α} (place index : Nat) (item : β)
    (elsewhere : addr ≠ page) :
    write content page place item addr index = content addr index := by
  rw [write, if_neg fun both => elsewhere both.1]

variable {place : Nat}

theorem write_place (content : α → Nat → β) (page addr : α) {index : Nat} (item : β)
    (elsewhere : index ≠ place) :
    write content page place item addr index = content addr index := by
  rw [write, if_neg fun both => elsewhere both.2]

section

omit [DecidableEq α]

/-- Only the contents of the pages matter. -/
theorem Stored.frame (stored : Stored content width items pages)
    (same : ∀ page ∈ pages, ∀ index, other page index = content page index) :
    Stored other width items pages := by
  constructor
  · exact stored.count
  · intro index item present
    obtain ⟨page, inside, read⟩ := stored.found index item present
    exact ⟨page, inside, by rw [same page (List.mem_of_getElem? inside), read]⟩

/-- No items need no pages. -/
theorem Stored.nil (content : α → Nat → β) (pos : 0 < width) : Stored content width [] [] := by
  constructor
  · exact ((pageCount_eq_iff pos 0 0).mpr (by omega)).symm
  · intro index item present
    cases present

/-- A few items in one page. -/
theorem Stored.single (some_items : 0 < items.length) (few : items.length ≤ width)
    (read : ∀ index item, items[index]? = some item → content page index = item) :
    Stored content width items [page] := by
  constructor
  · obtain ⟨rest, size⟩ : ∃ rest, items.length = rest + 1 := ⟨items.length - 1, by omega⟩
    rw [size, pageCount_succ (by omega), div_eq_of_lt (by omega)]
    rfl
  · intro index item present
    have inside : index < width := Nat.lt_of_lt_of_le (List.getElem?_eq_some_iff.mp present).1 few
    rw [div_eq_of_lt inside, mod_eq_of_lt inside]
    exact ⟨page, rfl, read index item present⟩

/-- What one page holds. -/
theorem Stored.of_single (stored : Stored content width items [page]) (few : items.length ≤ width)
    {index : Nat} (present : items[index]? = some item) : content page index = item := by
  have inside : index < width := Nat.lt_of_lt_of_le (List.getElem?_eq_some_iff.mp present).1 few
  obtain ⟨found, same, read⟩ := stored.found index item present
  rw [div_eq_of_lt inside] at same
  cases same
  rwa [mod_eq_of_lt inside] at read

/-- The page that takes another item when it is not full. -/
theorem Stored.last_page (stored : Stored content width items pages)
    (started : items.length % width ≠ 0) :
    ∃ front page, pages = front ++ [page] ∧ front.length = items.length / width := by
  have count := stored.count
  rw [pageCount, if_neg started] at count
  obtain rfl | ⟨front, page, rfl⟩ := List.eq_nil_or_concat' pages
  · cases count
  · rw [length_append, length_singleton] at count
    exact ⟨front, page, rfl, by omega⟩

theorem Stored.last_item (stored : Stored content width (items ++ [item]) pages) (pos : 0 < width) :
    ∃ front page, pages = front ++ [page] ∧ front.length = items.length / width ∧
      content page (items.length % width) = item := by
  have count := stored.count
  rw [length_append, length_singleton, pageCount_succ pos] at count
  obtain rfl | ⟨front, page, rfl⟩ := List.eq_nil_or_concat' pages
  · cases count
  · have size : front.length = items.length / width := by
      rw [length_append, length_singleton] at count
      omega
    obtain ⟨found, inside, read⟩ := stored.found items.length item getElem?_concat_length
    rw [← size, getElem?_concat_length] at inside
    cases inside
    exact ⟨front, page, rfl, size, read⟩

end

/-- Another item in the last page. -/
theorem Stored.push (item : β) (stored : Stored content width items (pages ++ [page]))
    (pos : 0 < width) (distinct : (pages ++ [page]).Nodup) (started : items.length % width ≠ 0)
    (place : pages.length = items.length / width) :
    Stored (write content page (items.length % width) item) width (items ++ [item])
      (pages ++ [page]) := by
  have last : (pages ++ [page])[items.length / width]? = some page := by
    rw [← place, getElem?_concat_length]
  constructor
  · rw [stored.count, length_append, length_singleton, pageCount_succ pos,
      pageCount, if_neg started]
  · intro index other present
    by_cases old : index < items.length
    · rw [getElem?_append_left old] at present
      obtain ⟨found, inside, read⟩ := stored.found index other present
      refine ⟨found, inside, ?_⟩
      by_cases same : index % width = items.length % width
      · -- The place is that of the new item, so the page is another one.
        rw [write_page, read]
        rintro rfl
        have equal : index / width = items.length / width :=
          (List.getElem?_inj (List.getElem?_eq_some_iff.mp inside).1 distinct).mp
            (inside.trans last.symm)
        have first := Nat.div_add_mod index width
        have second := Nat.div_add_mod items.length width
        rw [equal, same] at first
        omega
      · rw [write_place _ _ _ _ same, read]
    · have size := (List.getElem?_eq_some_iff.mp present).1
      rw [length_append, length_singleton] at size
      obtain rfl : index = items.length := by omega
      rw [getElem?_concat_length] at present
      cases present
      exact ⟨page, last, write_same _ _ _ _⟩

/-- Another item in a page of its own. -/
theorem Stored.push_page (item : β) (stored : Stored content width items pages)
    (pos : 0 < width) (full : items.length % width = 0) (fresh : page ∉ pages) :
    Stored (write content page 0 item) width (items ++ [item]) (pages ++ [page]) := by
  have count : pages.length = items.length / width := by rw [stored.count, pageCount, if_pos full]
  constructor
  · rw [length_append, length_append, length_singleton, length_singleton, pageCount_succ pos, count]
  · intro index other present
    by_cases old : index < items.length
    · rw [getElem?_append_left old] at present
      obtain ⟨found, inside, read⟩ := stored.found index other present
      refine ⟨found, ?_, ?_⟩
      · rw [getElem?_append_left (List.getElem?_eq_some_iff.mp inside).1, inside]
      · rw [write_page, read]
        rintro rfl
        exact fresh (List.mem_of_getElem? inside)
    · have size := (List.getElem?_eq_some_iff.mp present).1
      rw [length_append, length_singleton] at size
      obtain rfl : index = items.length := by omega
      rw [getElem?_concat_length] at present
      cases present
      refine ⟨page, ?_, ?_⟩
      · rw [← count, getElem?_concat_length]
      · rw [full, write_same]

omit [DecidableEq α] in
/-- Without its last item a page that holds more is kept. -/
theorem Stored.pop (stored : Stored content width (items ++ [item]) pages) (pos : 0 < width)
    (more : items.length % width ≠ 0) : Stored content width items pages := by
  constructor
  · rw [stored.count, length_append, length_singleton, pageCount_succ pos, pageCount, if_neg more]
  · intro index other present
    refine stored.found index other ?_
    rw [getElem?_append_left (List.getElem?_eq_some_iff.mp present).1, present]

omit [DecidableEq α] in
/-- With the first item of the last page the page is given back. -/
theorem Stored.pop_page (stored : Stored content width (items ++ [item]) (pages ++ [page]))
    (pos : 0 < width) (first : items.length % width = 0) :
    Stored content width items pages := by
  have count : pages.length = items.length / width := by
    have total := stored.count
    rw [length_append, length_append, length_singleton, length_singleton,
      pageCount_succ pos] at total
    omega
  constructor
  · rw [count, pageCount, if_pos first]
  · intro index other present
    have old := (List.getElem?_eq_some_iff.mp present).1
    obtain ⟨found, inside, read⟩ := stored.found index other (by
      rw [getElem?_append_left old, present])
    refine ⟨found, ?_, read⟩
    have less : index / width < pages.length := by
      rw [count]
      exact Nat.div_lt_div_of_lt_of_dvd (Nat.dvd_of_mod_eq_zero first) old
    rwa [getElem?_append_left less] at inside

theorem place_eq (num : Nat) (inside : place < width) :
    (num * width + place) / width = num ∧ (num * width + place) % width = place := by
  constructor
  · rw [Nat.mul_comm, Nat.mul_add_div (Nat.zero_lt_of_lt inside), div_eq_of_lt inside, Nat.add_zero]
  · rw [Nat.mul_comm, Nat.mul_add_mod, mod_eq_of_lt inside]

section

omit [DecidableEq α]

/-- A part of one page is written, from a place that is not behind the last item. -/
theorem Stored.splice (stored : Stored content width items pages) (distinct : pages.Nodup)
    {num : Nat} (chunk : List β) (index : pages[num]? = some page)
    (inside : place + chunk.length ≤ width) (positive : 0 < width)
    (start : num * width + place ≤ items.length)
    (elsewhere : ∀ addr ≠ page, ∀ index, other addr index = content addr index)
    (fresh : ∀ index item, chunk[index]? = some item → other page (place + index) = item)
    (kept : ∀ index, index < width → index < place ∨ place + chunk.length ≤ index →
      num * width + index < items.length → other page index = content page index) :
    Stored other width (items.take (num * width + place) ++ chunk ++
      items.drop (num * width + place + chunk.length)) pages := by
  have size : (items.take (num * width + place) ++ chunk ++
      items.drop (num * width + place + chunk.length)).length =
        max items.length (num * width + place + chunk.length) := by
    simp only [length_append, length_take, List.length_drop]
    omega
  have known := (pageCount_eq_iff positive _ _).mp stored.count.symm
  have bound : (num + 1) * width ≤ pages.length * width :=
    Nat.mul_le_mul_right width (List.getElem?_eq_some_iff.mp index).1
  rw [succ_mul] at bound
  constructor
  · exact ((pageCount_eq_iff positive _ _).mpr (by omega)).symm
  -- The items outside of the written part are where they were.
  have old : ∀ pos item, items[pos]? = some item →
      pos < num * width + place ∨ num * width + place + chunk.length ≤ pos →
      ∃ page, pages[pos / width]? = some page ∧ other page (pos % width) = item := by
    intro pos item present apart
    obtain ⟨found, where_found, read⟩ := stored.found pos item present
    refine ⟨found, where_found, ?_⟩
    by_cases same : found = page
    · subst same
      have equal : pos / width = num :=
        (List.getElem?_inj (List.getElem?_eq_some_iff.mp where_found).1 distinct).mp
          (where_found.trans index.symm)
      have split := Nat.div_add_mod' pos width
      have short := (List.getElem?_eq_some_iff.mp present).1
      rw [equal] at split
      rw [kept (pos % width) (mod_lt _ positive) (by omega) (by omega), read]
    · rw [elsewhere found same, read]
  intro pos item present
  by_cases before : pos < num * width + place
  · refine old pos item ?_ (.inl before)
    rw [List.append_assoc, getElem?_append_left (by rw [length_take]; omega),
      List.getElem?_take_of_lt before] at present
    exact present
  by_cases written : pos < num * width + place + chunk.length
  · obtain ⟨rest, rfl⟩ := Nat.le.dest (Nat.le_of_not_lt before)
    rw [List.append_assoc, List.getElem?_append_right (by rw [length_take]; omega),
      length_take, Nat.min_eq_left start, Nat.add_sub_cancel_left,
      getElem?_append_left (by omega)] at present
    have short : place + rest < width := by omega
    obtain ⟨quotient, remainder⟩ := place_eq num short
    rw [← Nat.add_assoc] at quotient remainder
    rw [quotient, remainder]
    exact ⟨page, index, fresh rest item present⟩
  · refine old pos item ?_ (.inr (by omega))
    rw [List.getElem?_append_right (by simp only [length_append, length_take]; omega),
      List.getElem?_drop] at present
    rw [← present]
    congr 1
    simp only [length_append, length_take]
    omega

/-- The first items of a new page. -/
theorem Stored.open_page (stored : Stored content width items pages)
    (full : items.length = pages.length * width) (positive : 0 < width) (chunk : List β)
    (some_items : 0 < chunk.length) (few : chunk.length ≤ width)
    (elsewhere : ∀ addr ∈ pages, ∀ index, other addr index = content addr index)
    (fresh : ∀ index item, chunk[index]? = some item → other page index = item) :
    Stored other width (items ++ chunk) (pages ++ [page]) := by
  constructor
  · rw [length_append, length_append, length_singleton]
    exact ((pageCount_eq_iff positive _ _).mpr (by rw [succ_mul]; omega)).symm
  · intro pos item present
    by_cases before : pos < items.length
    · rw [getElem?_append_left before] at present
      obtain ⟨found, where_found, read⟩ := stored.found pos item present
      refine ⟨found, ?_, ?_⟩
      · rw [getElem?_append_left (List.getElem?_eq_some_iff.mp where_found).1, where_found]
      · rw [elsewhere found (List.mem_of_getElem? where_found), read]
    · obtain ⟨rest, rfl⟩ := Nat.le.dest (Nat.le_of_not_lt before)
      rw [List.getElem?_append_right (Nat.le_add_right _ _), Nat.add_sub_cancel_left] at present
      have short := (List.getElem?_eq_some_iff.mp present).1
      obtain ⟨quotient, remainder⟩ := place_eq pages.length (Nat.lt_of_lt_of_le short few)
      rw [full, quotient, remainder, getElem?_concat_length]
      exact ⟨page, rfl, fresh rest item present⟩

/-- The first items with the pages that they need. -/
theorem Stored.take (stored : Stored content width items pages) (positive : 0 < width) {count : Nat}
    (fewer : count ≤ items.length) :
    Stored content width (items.take count) (pages.take (pageCount width count)) := by
  have known := (pageCount_eq_iff positive _ _).mp stored.count.symm
  have needed := (pageCount_eq_iff positive count _).mp rfl
  have less : pageCount width count ≤ pages.length := by
    have below : pageCount width count * width < (pages.length + 1) * width := by
      rw [succ_mul]
      omega
    have := Nat.lt_of_mul_lt_mul_right below
    omega
  constructor
  · rw [length_take, length_take, Nat.min_eq_left less, Nat.min_eq_left fewer]
  · intro pos item present
    have short : pos < count := by
      have bound := (List.getElem?_eq_some_iff.mp present).1
      rw [length_take] at bound
      omega
    rw [List.getElem?_take_of_lt short] at present
    obtain ⟨found, where_found, read⟩ := stored.found pos item present
    refine ⟨found, ?_, read⟩
    have inside : pos / width < pageCount width count :=
      Nat.div_lt_of_lt_mul (by rw [Nat.mul_comm]; omega)
    rw [List.getElem?_take_of_lt inside, where_found]

end

end Paged

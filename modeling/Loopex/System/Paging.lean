import Mathlib.Data.List.Infix
import Mathlib.Data.List.Basic

/-!
# Pages of a growing log

A log whose rows carry their positions, counted from one, is read a page at a time while it grows.

* `page` — at most `limit` rows after a position
* `filter_numbered` — the rows past a position are those that are left when as many are dropped
* `take_add_page` — a page goes on where the rows read so far end
* `Growing` — logs that only grow
* `ReadTo` — the rows read so far are the first rows of every log still to come, page after page
-/

namespace Loopex.System

variable {α : Type}

/-- At most `limit` rows after the first `after`. -/
def page (rows : List α) (after limit : ℕ) : List α := (rows.drop after).take limit

/-- The rows carry their positions, counted from one. -/
def Numbered (pos : α → ℕ) (rows : List α) : Prop := ∀ i row, rows[i]? = some row → pos row = i + 1

theorem filter_numbered {pos : α → ℕ} {rows : List α} (h : Numbered pos rows) (after : ℕ) :
    (rows.filter fun row => decide (after < pos row)) = rows.drop after := by
  conv_lhs => rw [← List.take_append_drop after rows]
  have hfirst : ((rows.take after).filter fun row => decide (after < pos row)) = [] := by
    refine List.filter_eq_nil_iff.2 fun row hmem => ?_
    obtain ⟨i, hi⟩ := List.getElem?_of_mem hmem
    obtain ⟨hlt, -⟩ := List.getElem?_eq_some_iff.1 hi
    rw [List.length_take] at hlt
    rw [List.getElem?_take_of_lt (by omega)] at hi
    rw [decide_eq_true_eq, h i row hi]
    omega
  have hrest : ((rows.drop after).filter fun row => decide (after < pos row)) = rows.drop after := by
    refine List.filter_eq_self.2 fun row hmem => ?_
    obtain ⟨i, hi⟩ := List.getElem?_of_mem hmem
    rw [List.getElem?_drop] at hi
    rw [decide_eq_true_eq, h _ row hi]
    omega
  rw [List.filter_append, hfirst, hrest, List.nil_append]

theorem page_eq_drop (rows : List α) (after limit : ℕ) :
    page rows after limit = (rows.take (after + limit)).drop after := List.take_drop

theorem length_page_le (rows : List α) (after limit : ℕ) : (page rows after limit).length ≤ limit :=
  List.length_take_le ..

theorem length_page (rows : List α) (after limit : ℕ) :
    (page rows after limit).length = min limit (rows.length - after) := by
  rw [page, List.length_take, List.length_drop]

/-- **A page goes on where the rows read so far end.** -/
theorem take_add_page (rows : List α) (after limit : ℕ) :
    rows.take after ++ page rows after limit = rows.take (after + (page rows after limit).length) := by
  rw [length_page, List.take_add, page]
  congr 1
  rw [List.take_eq_take_iff, List.length_drop]
  omega

/-- A page with a row to spare has read the log to its end. -/
theorem page_eq_nil {rows : List α} {after limit : ℕ} (hlimit : 0 < limit) :
    page rows after limit = [] ↔ rows.length ≤ after := by
  rw [← List.length_eq_zero_iff, length_page]
  omega

theorem getElem?_page {rows : List α} {after limit i : ℕ} {row : α} (h : (page rows after limit)[i]? = some row) :
    rows[after + i]? = some row := by
  have hlt := (List.getElem?_eq_some_iff.1 h).1
  rw [page, List.getElem?_take_of_lt (hlt.trans_le (length_page_le ..)), List.getElem?_drop] at h
  exact h

theorem page_drop (rows : List α) (first after limit : ℕ) :
    page rows (first + after) limit = page (rows.drop first) after limit := by
  rw [page, page, List.drop_drop]

theorem mem_of_mem_page {rows : List α} {after limit : ℕ} {row : α} (h : row ∈ page rows after limit) : row ∈ rows :=
  List.mem_of_mem_drop (List.mem_of_mem_take h)

theorem take_of_isPrefix {xs ys : List α} (h : xs <+: ys) {n : ℕ} (hn : n ≤ xs.length) : ys.take n = xs.take n := by
  obtain ⟨zs, rfl⟩ := h
  exact List.take_append_of_le_length hn

theorem getElem?_of_isPrefix {xs ys : List α} (h : xs <+: ys) {n : ℕ} (hn : n < xs.length) : ys[n]? = xs[n]? := by
  obtain ⟨zs, rfl⟩ := h
  exact List.getElem?_append_left hn

/-- A page within an early log is the same page of a late one. -/
theorem page_of_isPrefix {xs ys : List α} (h : xs <+: ys) {after limit : ℕ} (hle : after + limit ≤ xs.length) :
    page ys after limit = page xs after limit := by
  rw [page_eq_drop, page_eq_drop, take_of_isPrefix h hle]

/-! ## logs that grow -/

/-- Of two logs of the sequence, an early one is a part of a late one; `none` cannot be read. -/
def Growing (logs : ℕ → Option (List α)) : Prop :=
  ∀ m n xs ys, m ≤ n → logs m = some xs → logs n = some ys → xs <+: ys

/-- The logs past a position grow too. -/
theorem Growing.drop {logs : ℕ → Option (List α)} (h : Growing logs) (first : ℕ) :
    Growing fun n => (logs n).map (List.drop first) := by
  intro m n xs ys hle hm hn
  obtain ⟨xs, hxs, rfl⟩ := Option.map_eq_some_iff.1 hm
  obtain ⟨ys, hys, rfl⟩ := Option.map_eq_some_iff.1 hn
  exact (h m n xs ys hle hxs hys).drop first

/-- From the `n`th log on, the rows read, the last one first, are the first `pos` rows of every log. -/
def ReadTo (logs : ℕ → Option (List α)) (n pos : ℕ) (read : List α) : Prop :=
  ∀ m rows, n ≤ m → logs m = some rows → pos ≤ rows.length ∧ read.reverse = rows.take pos

theorem ReadTo.start (logs : ℕ → Option (List α)) (n : ℕ) : ReadTo logs n 0 [] :=
  fun _ _ _ _ => ⟨Nat.zero_le _, rfl⟩

theorem ReadTo.mono {logs : ℕ → Option (List α)} {n m pos : ℕ} {read : List α} (h : ReadTo logs n pos read)
    (hle : n ≤ m) : ReadTo logs m pos read :=
  fun k rows hk hrows => h k rows (hle.trans hk) hrows

/-- **One more page.** -/
theorem ReadTo.page {logs : ℕ → Option (List α)} {n pos limit : ℕ} {read rows : List α} (h : ReadTo logs n pos read)
    (hg : Growing logs) (hn : logs n = some rows) :
    ReadTo logs (n + 1) (pos + (page rows pos limit).length) ((page rows pos limit).reverse ++ read) := by
  intro m later hm hlater
  have hpre : rows <+: later := hg n m rows later (by omega) hn hlater
  obtain ⟨hpos, hread⟩ := h n rows le_rfl hn
  have hlen : pos + (System.page rows pos limit).length ≤ rows.length := by
    rw [length_page]
    omega
  refine ⟨hlen.trans hpre.length_le, ?_⟩
  rw [List.reverse_append, List.reverse_reverse, hread, take_add_page, take_of_isPrefix hpre hlen]

end Loopex.System

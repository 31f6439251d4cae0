import Mathlib.Data.List.Induction
import Mathlib.Data.List.Nodup

/-!
# Groups in order of first occurrence

`groups key xs` sorts the items of a list by key: the keys stand in the order in which they first
occur, each with its items in their order. This is how a reader would file a whole list at once.

Filing one item after the other works differently: the entry of the item's key is changed in its
place, or a new one comes at the end (`upsert`). The two agree, `grouped_concat`: one more
item at the end of the list is one more `upsert`.
-/

namespace StyleGuide

variable {α β κ : Type} [DecidableEq κ]

/-! ### Distinct items -/

/-- An item at the end is dropped if it has occurred before. -/
theorem eraseDups_concat (ks : List κ) (k : κ) :
    (ks ++ [k]).eraseDups = if k ∈ ks then ks.eraseDups else ks.eraseDups ++ [k] := by
  rw [List.eraseDups_append]
  by_cases hk : k ∈ ks
  · simp [List.removeAll, hk]
  · simp [List.removeAll, hk, List.eraseDups_cons]

theorem eraseDups_sublist (ks : List κ) : ks.eraseDups.Sublist ks := by
  -- By induction from the end, where an item is dropped if it has occurred before.
  induction ks using List.reverseRecOn with
  | nil => exact List.nil_sublist []
  | append_singleton ks k ih =>
    rw [eraseDups_concat]
    split
    · exact ih.trans (List.sublist_append_left ks [k])
    · exact ih.append_right [k]

theorem nodup_eraseDups (ks : List κ) : ks.eraseDups.Nodup := by
  induction ks using List.reverseRecOn with
  | nil => exact List.nodup_nil
  | append_singleton ks k ih =>
    rw [eraseDups_concat]
    split
    · exact ih
    · next hk =>
      rw [← List.concat_eq_append]
      exact ih.concat fun hmem => hk (List.mem_eraseDups.mp hmem)

/-! ### Groups -/

/-- The items that have a key, by key. The keys stand in the order in which they first occur. -/
def groups (key : α → Option κ) (xs : List α) : List (κ × List α) :=
  (xs.filterMap key).eraseDups.map fun k => (k, xs.filter fun x => key x = some k)

def grouped (key : α → Option κ) (make : κ → List α → β) (xs : List α) : List β :=
  (groups key xs).map fun g => make g.1 g.2

variable (key : α → Option κ) {make : κ → List α → β} {xs : List α} {x : α}

theorem grouped_eq_map (make : κ → List α → β) (xs : List α) :
    grouped key make xs =
      (xs.filterMap key).eraseDups.map fun k => make k (xs.filter fun x => key x = some k) := by
  simp [grouped, groups, List.map_map, Function.comp_def]

/-- There is one entry for each key that occurs. -/
theorem mem_grouped {b : β} :
    b ∈ grouped key make xs ↔
      ∃ k ∈ xs.filterMap key, make k (xs.filter fun x => key x = some k) = b := by
  rw [grouped_eq_map, List.mem_map]
  simp only [List.mem_eraseDups]

/-- One item alone. -/
theorem grouped_singleton {k : κ} (hx : key x = some k) :
    grouped key make [x] = [make k [x]] := by
  simp [grouped_eq_map, hx, List.eraseDups_cons]

/-- An item without a key changes nothing. -/
theorem grouped_concat_of_none (hx : key x = none) :
    grouped key make (xs ++ [x]) = grouped key make xs := by
  simp [grouped_eq_map, List.filterMap_append, List.filter_append, hx]

/-- The group of a key after one more item. -/
theorem filter_concat {k : κ} (hx : key x = some k) (l : κ) :
    ((xs ++ [x]).filter fun y => key y = some l) =
      if l = k then (xs.filter fun y => key y = some k) ++ [x]
      else xs.filter fun y => key y = some l := by
  by_cases hl : l = k
  · simp [hl, hx]
  · simp [hl, hx, Ne.symm hl]

/-- One more item of a key that has occurred changes the entry of that key only. -/
theorem grouped_concat_of_mem {k : κ} (hx : key x = some k) (hk : k ∈ xs.filterMap key) :
    grouped key make (xs ++ [x]) = (xs.filterMap key).eraseDups.map fun l =>
      if l = k then make k ((xs.filter fun y => key y = some k) ++ [x])
      else make l (xs.filter fun y => key y = some l) := by
  rw [grouped_eq_map, List.filterMap_append]
  have hkeys : xs.filterMap key ++ [x].filterMap key = xs.filterMap key ++ [k] := by simp [hx]
  rw [hkeys, eraseDups_concat, if_pos hk]
  apply List.map_congr_left
  intro l _
  rw [filter_concat key hx]
  split
  · next hl => rw [hl]
  · rfl

/-- An item of a new key comes at the end, in an entry of its own. -/
theorem grouped_concat_of_not_mem {k : κ} (hx : key x = some k) (hk : k ∉ xs.filterMap key) :
    grouped key make (xs ++ [x]) = grouped key make xs ++ [make k [x]] := by
  rw [grouped_eq_map, grouped_eq_map, List.filterMap_append]
  have hkeys : xs.filterMap key ++ [x].filterMap key = xs.filterMap key ++ [k] := by simp [hx]
  rw [hkeys, eraseDups_concat, if_neg hk, List.map_append]
  have hnone : (xs.filter fun y => key y = some k) = [] := by
    rw [List.filter_eq_nil_iff]
    intro y hy hyk
    exact hk (List.mem_filterMap.mpr ⟨y, hy, by simpa using hyk⟩)
  congr 1
  · apply List.map_congr_left
    intro l hl
    have hlk : l ≠ k := by
      rintro rfl
      exact hk (List.mem_eraseDups.mp hl)
    rw [filter_concat key hx, if_neg hlk]
  · simp [filter_concat key hx, hnone]

/-! ### Filing one item after the other -/

/-- Change the first item that passes the test, or else put a new one at the end. -/
def upsert (test : β → Bool) (change : β → β) (new : β) : List β → List β
  | [] => [new]
  | b :: bs => if test b then change b :: bs else b :: upsert test change new bs

/-- Where nothing is to be changed, an item is only added if none passes the test. -/
theorem upsert_id (test : β → Bool) (new : β) (bs : List β) :
    upsert test id new bs = if bs.any test then bs else bs ++ [new] := by
  induction bs with
  | nil => rfl
  | cons b bs ih =>
    rw [upsert, ih]
    by_cases hb : test b
    · simp [hb]
    · by_cases hbs : bs.any test <;> simp [hb, hbs]

/-- Where an item passes the test, `upsert` changes it and keeps the others. -/
theorem upsert_map_of_mem {test : β → Bool} {change : β → β} {new : β} {f : κ → β} {k : κ} :
    ∀ {ks : List κ}, ks.Nodup → k ∈ ks → (∀ l ∈ ks, test (f l) = decide (l = k)) →
      upsert test change new (ks.map f) = ks.map fun l => if l = k then change (f k) else f l
  | [], _, hk, _ => by simp at hk
  | l :: ls, hnodup, hk, htest => by
    obtain ⟨hl, hls⟩ := List.nodup_cons.mp hnodup
    have htl := htest l (by simp)
    rw [List.map_cons, upsert, List.map_cons, htl]
    by_cases hlk : l = k
    · subst hlk
      have hrest : ls.map f = ls.map fun m => if m = l then change (f l) else f m := by
        apply List.map_congr_left
        intro m hm
        rw [if_neg]
        rintro rfl
        exact hl hm
      simp [hrest]
    · have hk' : k ∈ ls := (List.mem_cons.mp hk).resolve_left (Ne.symm hlk)
      rw [upsert_map_of_mem hls hk' fun m hm => htest m (by simp [hm])]
      simp [hlk]

/-- Where no entry passes the test, a new one comes at the end. -/
theorem upsert_of_none {test : β → Bool} {change : β → β} {new : β} :
    ∀ {bs : List β}, (∀ b ∈ bs, test b = false) → upsert test change new bs = bs ++ [new]
  | [], _ => rfl
  | b :: bs, h => by
    rw [upsert, h b (by simp), if_neg (by simp), upsert_of_none fun c hc => h c (by simp [hc])]
    rfl

/-- **Filing one more item.** If `change` does to the entry of a key what one more item does, and
`new` is the entry of the item alone, then filing the item into the entries of a list gives the
entries of the longer list. -/
theorem grouped_concat {k : κ} {test : β → Bool} {change : β → β} {new : β}
    (hx : key x = some k)
    (htest : ∀ l ∈ xs.filterMap key,
      test (make l (xs.filter fun y => key y = some l)) = decide (l = k))
    (hchange : k ∈ xs.filterMap key → change (make k (xs.filter fun y => key y = some k)) =
      make k ((xs.filter fun y => key y = some k) ++ [x]))
    (hnew : new = make k [x]) :
    grouped key make (xs ++ [x]) = upsert test change new (grouped key make xs) := by
  by_cases hk : k ∈ xs.filterMap key
  · rw [grouped_concat_of_mem key hx hk, grouped_eq_map,
      upsert_map_of_mem (nodup_eraseDups _) (List.mem_eraseDups.mpr hk)
        fun l hl => htest l (List.mem_eraseDups.mp hl), hchange hk]
  · rw [grouped_concat_of_not_mem key hx hk, upsert_of_none, hnew]
    intro b hb
    rw [grouped_eq_map] at hb
    obtain ⟨l, hl, rfl⟩ := List.mem_map.mp hb
    rw [htest l (List.mem_eraseDups.mp hl), decide_eq_false_iff_not]
    rintro rfl
    exact hk (List.mem_eraseDups.mp hl)

/-- Changing all entries that pass the test is changing the one of the key. -/
theorem grouped_concat_eq_map {k : κ} {test : β → Bool} {change : β → β}
    (hx : key x = some k) (hk : k ∈ xs.filterMap key)
    (htest : ∀ l ∈ xs.filterMap key,
      test (make l (xs.filter fun y => key y = some l)) = decide (l = k))
    (hchange : change (make k (xs.filter fun y => key y = some k)) =
      make k ((xs.filter fun y => key y = some k) ++ [x])) :
    grouped key make (xs ++ [x]) =
      (grouped key make xs).map fun b => if test b then change b else b := by
  rw [grouped_concat_of_mem key hx hk, grouped_eq_map, List.map_map]
  apply List.map_congr_left
  intro l hl
  show _ = if test (make l _) then _ else _
  rw [htest l (List.mem_eraseDups.mp hl)]
  by_cases hl : l = k
  · subst hl
    simp [hchange]
  · simp [hl]

end StyleGuide

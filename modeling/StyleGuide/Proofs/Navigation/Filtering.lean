import StyleGuide.Navigation.Filter
import StyleGuide.Proofs.Navigation.Merging

/-!
# What a filter keeps

Sections, children and categories are filtered in one way: every item is looked at, and what is made
of the items that are kept stands in their order. `keepM` is that way, and each of the three loops
is shown to go it. An item that was kept is kept again as it is, so filtering a second time changes
nothing (`filter_kept`).
-/

namespace StyleGuide

/-! ### Keeping some items -/

section Keeping

variable {ε α β : Type} {f : α → Except ε (Option β)} {xs : List α} {ys : List β}

def keepM (f : α → Except ε (Option β)) (xs : List α) : Except ε (List β) :=
  return (← xs.mapM f).filterMap id

theorem keepM_cons (x : α) : keepM f (x :: xs) = do
    let kept ← f x
    let rest ← keepM f xs
    return kept.toList ++ rest := by
  rw [keepM, keepM, List.mapM_cons]
  cases f x with
  | error e => rfl
  | ok kept =>
    cases xs.mapM f with
    | error e => rfl
    | ok rest => cases kept <;> rfl

/-- What is kept was made of one of the items. -/
theorem mem_of_keepM (h : keepM f xs = .ok ys) {y : β} (hy : y ∈ ys) :
    ∃ x ∈ xs, f x = .ok (some y) := by
  obtain ⟨zs, hzs, h⟩ := bind_eq_ok_iff.mp h
  rw [pure_eq_ok_iff.mp h, List.mem_filterMap] at hy
  obtain ⟨z, hz, rfl⟩ := hy
  exact exists_of_mem_mapM hzs hz

/-- If every item is kept as it is, so is the list. -/
theorem keepM_eq_self {f : α → Except ε (Option α)} (h : ∀ x ∈ xs, f x = .ok (some x)) :
    keepM f xs = .ok xs := by
  induction xs with
  | nil => rfl
  | cons x xs ih =>
    obtain ⟨hx, hxs⟩ := List.forall_mem_cons.mp h
    rw [keepM_cons, hx, ih hxs]
    rfl

end Keeping

namespace Navigation

variable {kinds : List String}

/-! ### Sections -/

def shownSection? (kinds : List String) (s : Json) : Except ShapeFault (Option Json) :=
  return if ← isShown kinds s then some s else none

theorem shownSections_eq_keepM (ss : List Json) :
    shownSections kinds ss = keepM (shownSection? kinds) ss := by
  induction ss with
  | nil => rfl
  | cons s ss ih =>
    rw [shownSections, keepM_cons, ih, shownSection?]
    cases isShown kinds s with
    | error e => rfl
    | ok shown =>
      cases keepM (shownSection? kinds) ss with
      | error e => rfl
      | ok rest => cases shown <;> rfl

theorem shownSection?_eq_some_iff {s kept : Json} :
    shownSection? kinds s = .ok (some kept) ↔ kept = s ∧ isShown kinds s = .ok true := by
  rw [shownSection?]
  cases isShown kinds s with
  | error e => simp [bind, Except.bind]
  | ok shown => cases shown <;> simp [bind, Except.bind, pure, Except.pure, eq_comm]

/-- The sections that are shown are some of the sections, and they are shown again. -/
theorem shownSections_shown {ss shown : List Json} (h : shownSections kinds ss = .ok shown) :
    (∀ s ∈ shown, s ∈ ss) ∧ shownSections kinds shown = .ok shown := by
  rw [shownSections_eq_keepM] at h ⊢
  have hmem : ∀ s ∈ shown, s ∈ ss ∧ isShown kinds s = .ok true := by
    intro s hs
    obtain ⟨s', hs', hshown⟩ := mem_of_keepM h hs
    obtain ⟨rfl, hshown⟩ := shownSection?_eq_some_iff.mp hshown
    exact ⟨hs', hshown⟩
  refine ⟨fun s hs => (hmem s hs).1, keepM_eq_self ?_⟩
  intro s hs
  exact shownSection?_eq_some_iff.mpr ⟨rfl, (hmem s hs).2⟩

/-! ### Children -/

def filteredSections (fields : Fields) : Except ShapeFault (List Json) :=
  ((fields.getD "sections" .null).orElse (.arr [])).elements

/-- A child is kept with the sections that are shown, unless there are none. -/
theorem filterChild_eq_ok_iff {child : Json} {kept : Option Json} :
    filterChild kinds child = .ok kept ↔
      ∃ (fields : Fields) (old shown : List Json), child = .obj fields ∧
        filteredSections fields = .ok old ∧ shownSections kinds old = .ok shown ∧
        kept = if shown.isEmpty then none
          else some (.obj (fields.set "sections" (.arr shown))) := by
  simp only [filterChild, bind_eq_ok_iff, pure_eq_ok_iff, Json.asObject_eq_ok_iff]
  constructor
  · rintro ⟨fields, hchild, old, hold, shown, hshown, hkept⟩
    exact ⟨fields, old, shown, hchild, hold, hshown, hkept⟩
  · rintro ⟨fields, old, shown, hchild, hold, hshown, hkept⟩
    exact ⟨fields, hchild, old, hold, shown, hshown, hkept⟩

theorem filteredSections_of_get? {fields : Fields} {ss : List Json}
    (h : fields.get? "sections" = some (.arr ss)) : filteredSections fields = .ok ss := by
  rw [filteredSections, Fields.getD_of_get? h, Json.orElse]
  cases ss <;> rfl

theorem filterChild_eq_some_iff {child kept : Json} :
    filterChild kinds child = .ok (some kept) ↔
      ∃ (fields : Fields) (old shown : List Json), child = .obj fields ∧
        filteredSections fields = .ok old ∧ shownSections kinds old = .ok shown ∧ shown ≠ [] ∧
        kept = .obj (fields.set "sections" (.arr shown)) := by
  rw [filterChild_eq_ok_iff]
  constructor
  · rintro ⟨fields, old, shown, hchild, hold, hshown, hkept⟩
    cases shown with
    | nil => simp at hkept
    | cons s ss =>
      exact ⟨fields, old, s :: ss, hchild, hold, hshown, by simp, by simpa using hkept⟩
  · rintro ⟨fields, old, shown, hchild, hold, hshown, hne, rfl⟩
    refine ⟨fields, old, shown, hchild, hold, hshown, ?_⟩
    rw [if_neg (by simpa using hne)]

/-- What a filter keeps of a child it keeps again. -/
theorem filterChild_kept {child kept : Json} (h : filterChild kinds child = .ok (some kept)) :
    filterChild kinds kept = .ok (some kept) := by
  obtain ⟨fields, old, shown, rfl, hold, hshown, hne, rfl⟩ := filterChild_eq_some_iff.mp h
  have hget := Fields.get?_set_self fields "sections" (.arr shown)
  rw [filterChild_eq_some_iff]
  refine ⟨_, shown, shown, rfl, filteredSections_of_get? hget, (shownSections_shown hshown).2,
    hne, ?_⟩
  rw [Fields.set_eq_self hget]

theorem filterChildren_eq_keepM (cs : List Json) :
    filterChildren kinds cs = keepM (filterChild kinds) cs := by
  induction cs with
  | nil => rfl
  | cons c cs ih => rw [filterChildren, keepM_cons, ih]

/-! ### Categories -/

theorem filterCategory_eq_some_iff {category kept : Json} :
    filterCategory kinds category = .ok (some kept) ↔
      ∃ (fields : Fields) (old shown : List Json), category = .obj fields ∧
        children category = .ok old ∧ keepM (filterChild kinds) old = .ok shown ∧ shown ≠ [] ∧
        kept = .obj (fields.set "children" (.arr shown)) := by
  simp only [filterCategory, bind_eq_ok_iff, pure_eq_ok_iff, Json.asObject_eq_ok_iff,
    filterChildren_eq_keepM]
  constructor
  · rintro ⟨fields, hcategory, old, hold, shown, hshown, hkept⟩
    cases shown with
    | nil => simp at hkept
    | cons c cs =>
      exact ⟨fields, old, c :: cs, hcategory, hold, hshown, by simp, by simpa using hkept⟩
  · rintro ⟨fields, old, shown, hcategory, hold, hshown, hne, rfl⟩
    refine ⟨fields, hcategory, old, hold, shown, hshown, ?_⟩
    rw [if_neg (by simpa using hne)]

/-- What a filter keeps of a category it keeps again. -/
theorem filterCategory_kept {category kept : Json}
    (h : filterCategory kinds category = .ok (some kept)) :
    filterCategory kinds kept = .ok (some kept) := by
  obtain ⟨fields, old, shown, rfl, hold, hshown, hne, rfl⟩ := filterCategory_eq_some_iff.mp h
  rw [filterCategory_eq_some_iff]
  refine ⟨_, shown, shown, rfl, children_set fields shown, ?_, hne, ?_⟩
  · apply keepM_eq_self
    intro child hchild
    obtain ⟨child', -, hchild'⟩ := mem_of_keepM hshown hchild
    exact filterChild_kept hchild'
  · rw [Fields.set_eq_self (Fields.get?_set_self fields "children" (.arr shown))]

/-- An entry of a template, if it is static or has something to show. -/
def filterEntry (f : Filter) (entry : Key × Json) : Except ShapeFault (Option (Key × Json)) :=
  if f.keeps entry.1 then .ok (some entry)
  else return (← filterCategory f.kinds entry.2).map fun c => (entry.1, c)

theorem filterCategories_eq_keepM (f : Filter) (cs : Fields) :
    filterCategories f cs = keepM (filterEntry f) cs := by
  induction cs with
  | nil => rfl
  | cons c cs ih =>
    rw [filterCategories, keepM_cons, ih, filterEntry]
    split
    · rfl
    · cases filterCategory f.kinds c.2 with
      | error e => rfl
      | ok kept => cases keepM (filterEntry f) cs <;> rfl

/-- A static category is kept as it is, any other one if something in it is. -/
theorem filterEntry_eq_some_iff {f : Filter} {entry kept : Key × Json} :
    filterEntry f entry = .ok (some kept) ↔
      kept.1 = entry.1 ∧
        if f.keeps entry.1 then kept.2 = entry.2
        else filterCategory f.kinds entry.2 = .ok (some kept.2) := by
  obtain ⟨key, category⟩ := entry
  obtain ⟨key', kept⟩ := kept
  rw [filterEntry]
  by_cases hstatic : f.keeps key
  · simp [hstatic, eq_comm]
  · cases hfilter : filterCategory f.kinds category with
    | error e => simp [hstatic, bind, Except.bind]
    | ok found =>
      cases found <;> simp [hstatic, bind, Except.bind, pure, Except.pure, eq_comm]

theorem filterEntry_kept {f : Filter} {entry kept : Key × Json}
    (h : filterEntry f entry = .ok (some kept)) : filterEntry f kept = .ok (some kept) := by
  obtain ⟨hkey, hkept⟩ := filterEntry_eq_some_iff.mp h
  rw [filterEntry_eq_some_iff, hkey]
  refine ⟨rfl, ?_⟩
  split
  · rfl
  · next hstatic =>
    rw [if_neg hstatic] at hkept
    exact filterCategory_kept hkept

/-- Filtering succeeds exactly if the document is an object and all its entries can be told. -/
theorem filter_eq_ok_iff {f : Filter} {merged result : Json} :
    filter f merged = .ok result ↔
      ∃ old new : Fields, merged = .obj old ∧ result = .obj new ∧
        keepM (filterEntry f) old = .ok new := by
  simp only [filter, bind_eq_ok_iff, pure_eq_ok_iff, Json.asObject_eq_ok_iff,
    filterCategories_eq_keepM]
  constructor
  · rintro ⟨old, hold, new, hnew, hresult⟩
    exact ⟨old, new, hold, hresult, hnew⟩
  · rintro ⟨old, new, hold, hresult, hnew⟩
    exact ⟨old, hold, new, hnew, hresult⟩

/-- **Filtering twice is filtering once.** -/
theorem filter_kept {f : Filter} {merged result : Json} (h : filter f merged = .ok result) :
    filter f result = .ok result := by
  obtain ⟨old, new, -, rfl, hnew⟩ := filter_eq_ok_iff.mp h
  refine filter_eq_ok_iff.mpr ⟨new, new, rfl, rfl, keepM_eq_self ?_⟩
  intro entry hentry
  obtain ⟨entry', -, hentry'⟩ := mem_of_keepM hnew hentry
  exact filterEntry_kept hentry'

end Navigation

end StyleGuide

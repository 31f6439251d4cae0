import StyleGuide.Proofs.Navigation.Blanking

/-!
# What a filter selects

A filter is described without the filter: which sections render (`Renders`), and that children and
categories stay exactly if something in them does, with the rest of their list left out and nothing
else changed (`Thins`). The order is the order of the document (`Selects`). The flavours that count
are given by names, several of which may stand for one flavour (`StandsFor`).

A filter that wants fewer flavours narrows one that wants more: it gives the same whether it is
applied to a document or to what the other one leaves of it (`Narrows`). So more flavours never show
fewer sections (`filter_selects`).
-/

namespace StyleGuide

/-! ### Selecting from a list -/

section Selecting

variable {ε α β : Type} {R S : α → Option β → Prop} {xs : List α} {ys : List β}

/-- Some items of a list in their order, each as what is made of it: `R x (some y)` keeps `x` as
`y`, and `R x none` leaves it out. -/
inductive Selects (R : α → Option β → Prop) : List α → List β → Prop
  | nil : Selects R [] []
  | keep {x : α} {xs : List α} {y : β} {ys : List β} :
      R x (some y) → Selects R xs ys → Selects R (x :: xs) (y :: ys)
  | drop {x : α} {xs : List α} {ys : List β} : R x none → Selects R xs ys → Selects R (x :: xs) ys

theorem Selects.imp (h : Selects R xs ys) (himp : ∀ x kept, R x kept → S x kept) :
    Selects S xs ys := by
  induction h with
  | nil => exact .nil
  | keep hx _ ih => exact .keep (himp _ _ hx) ih
  | drop hx _ ih => exact .drop (himp _ _ hx) ih

theorem Selects.exists_of_mem (h : Selects R xs ys) {y : β} (hy : y ∈ ys) :
    ∃ x ∈ xs, R x (some y) := by
  induction h with
  | nil => exact absurd hy List.not_mem_nil
  | keep hx _ ih =>
    rcases List.mem_cons.mp hy with rfl | hy
    · exact ⟨_, List.mem_cons_self, hx⟩
    · obtain ⟨x, hmem, hR⟩ := ih hy
      exact ⟨x, List.mem_cons_of_mem _ hmem, hR⟩
  | drop _ _ ih =>
    obtain ⟨x, hmem, hR⟩ := ih hy
    exact ⟨x, List.mem_cons_of_mem _ hmem, hR⟩

/-- A list of what is kept is a selection, in the order of the list. -/
theorem selects_of_keepM {f : α → Except ε (Option β)} (h : keepM f xs = .ok ys) :
    Selects (fun x kept => f x = .ok kept) xs ys := by
  induction xs generalizing ys with
  | nil =>
    obtain rfl : ys = [] := pure_eq_ok_iff.mp h
    exact .nil
  | cons x xs ih =>
    rw [keepM_cons] at h
    obtain ⟨kept, hkept, h⟩ := bind_eq_ok_iff.mp h
    obtain ⟨rest, hrest, h⟩ := bind_eq_ok_iff.mp h
    rw [pure_eq_ok_iff.mp h]
    cases kept with
    | none => exact .drop hkept (ih hrest)
    | some y => exact .keep hkept (ih hrest)

/-- What `g` makes of an item is for `f` as good as the item itself. -/
def Narrows (f g : α → Except ε (Option α)) : Prop :=
  ∀ x kept, f x = .ok kept → ∃ kept', g x = .ok kept' ∧
    match kept' with
    | some x' => f x' = .ok kept
    | none => kept = none

/-- Of a list that was gone through by `g`, `f` keeps what it keeps of the list itself. -/
theorem Narrows.keepM {f g : α → Except ε (Option α)} (hfg : Narrows f g) {xs ys : List α}
    (h : keepM f xs = .ok ys) : ∃ zs, keepM g xs = .ok zs ∧ StyleGuide.keepM f zs = .ok ys := by
  induction xs generalizing ys with
  | nil => exact ⟨[], rfl, h⟩
  | cons x xs ih =>
    rw [keepM_cons] at h
    obtain ⟨kept, hkept, h⟩ := bind_eq_ok_iff.mp h
    obtain ⟨rest, hrest, h⟩ := bind_eq_ok_iff.mp h
    obtain rfl := pure_eq_ok_iff.mp h
    obtain ⟨zs, hzs, hkeep⟩ := ih hrest
    obtain ⟨kept', hkept', hmatch⟩ := hfg x kept hkept
    refine ⟨kept'.toList ++ zs, ?_, ?_⟩
    · rw [keepM_cons, hkept', hzs]
      rfl
    · cases kept' with
      | none =>
        obtain rfl : kept = none := hmatch
        exact hkeep
      | some x' =>
        have hx' : f x' = .ok kept := hmatch
        show StyleGuide.keepM f (x' :: zs) = _
        rw [keepM_cons, hx', hkeep]
        rfl

end Selecting

/-! ### Lists in an object -/

/-- The items of the list at a key; what is no list has none. -/
def Fields.itemsAt (fields : Fields) (key : Key) : List Json :=
  match fields.get? key with
  | some (.arr items) => items
  | _ => []

theorem Fields.get?_of_mem_itemsAt {fields : Fields} {key : Key} {x : Json}
    (hx : x ∈ fields.itemsAt key) :
    fields.get? key = some (.arr (fields.itemsAt key)) := by
  revert hx
  unfold Fields.itemsAt
  split
  · next hget => exact fun _ => hget
  · exact fun hx => absurd hx List.not_mem_nil

theorem Key.toJson_ne_obj (k : Key) (fields : Fields) : k.toJson ≠ .obj fields := by
  cases k <;> simp [Key.toJson]

/-- Only a list can have objects for its items. -/
theorem Json.eq_items_of_elements {v : Json} {items : List Json} (h : v.elements = .ok items)
    (hobj : ∀ x ∈ items, ∃ fields, x = .obj fields) : v = .arr items ∨ items = [] := by
  cases v with
  | arr xs => exact .inl (congrArg Json.arr (Except.ok.inj h))
  | str s =>
    right
    obtain rfl := Except.ok.inj h
    rw [List.eq_nil_iff_forall_not_mem]
    intro x hx
    obtain ⟨fields, rfl⟩ := hobj x hx
    simp at hx
  | obj fs =>
    right
    obtain rfl := Except.ok.inj h
    rw [List.eq_nil_iff_forall_not_mem]
    intro x hx
    obtain ⟨fields, rfl⟩ := hobj x hx
    obtain ⟨k, -, hk⟩ := List.mem_map.mp hx
    exact k.toJson_ne_obj fields hk
  | _ => cases h

/-- The field at a key has a new value, and everything else is as it was. -/
structure DiffersAt (key : Key) (value : Json) (old new : Fields) : Prop where
  keys : new.keys = old.keys
  value : new.get? key = some value
  others : ∀ name, key.same name = false → new.get? name = old.get? name

/-- Giving a field another value changes nothing else, and no order. -/
theorem differsAt_set {fields : Fields} {key : Key} (hhas : fields.has key = true) (value : Json) :
    DiffersAt key value fields (fields.set key value) where
  keys := by rw [Fields.keys_set, if_pos hhas]
  value := Fields.get?_set_self fields key value
  others _ hne := Fields.get?_set_of_ne hne

/-- An object stays if something in one of its lists does, with the rest of the list left out. -/
inductive Thins (key : Key) (R : Json → Option Json → Prop) : Json → Option Json → Prop
  | kept {old new : Fields} {shown : List Json} : Selects R (old.itemsAt key) shown → shown ≠ [] →
      DiffersAt key (.arr shown) old new → Thins key R (.obj old) (some (.obj new))
  | dropped {old : Fields} : Selects R (old.itemsAt key) [] → Thins key R (.obj old) none

theorem Thins.of_some {key : Key} {R : Json → Option Json → Prop} {v v' : Json}
    (h : Thins key R v (some v')) : ∃ old new : Fields, v = .obj old ∧ v' = .obj new ∧
      (∀ name, key.same name = false → new.get? name = old.get? name) ∧
      ∃ shown, new.get? key = some (.arr shown) ∧ ∀ y ∈ shown, ∃ x ∈ old.itemsAt key,
        R x (some y) := by
  cases h with
  | kept hselects _ hdiffers =>
    exact ⟨_, _, rfl, rfl, hdiffers.others, _, hdiffers.value,
      fun _ hy => hselects.exists_of_mem hy⟩

namespace Navigation

section Thinning

variable {key : Key} {items : Fields → Except ShapeFault (List Json)}
  {f g : Json → Except ShapeFault (Option Json)}

/-- An object with those items of one of its lists that are kept, none if no item is. -/
def thinM (key : Key) (items : Fields → Except ShapeFault (List Json))
    (f : Json → Except ShapeFault (Option Json)) (v : Json) : Except ShapeFault (Option Json) := do
  let fields ← v.asObject
  let shown ← keepM f (← items fields)
  return if shown.isEmpty then none else some (.obj (fields.set key (.arr shown)))

/-- An object is thinned out by keeping some items of one field, unless none is kept. -/
theorem thinM_eq_ok_iff {v : Json} {kept : Option Json} :
    thinM key items f v = .ok kept ↔ ∃ (fields : Fields) (old shown : List Json), v = .obj fields ∧
      items fields = .ok old ∧ keepM f old = .ok shown ∧
      kept = if shown.isEmpty then none else some (.obj (fields.set key (.arr shown))) := by
  simp only [thinM, bind_eq_ok_iff, pure_eq_ok_iff, Json.asObject_eq_ok_iff]
  constructor
  · rintro ⟨fields, hv, old, hold, shown, hshown, hkept⟩
    exact ⟨fields, old, shown, hv, hold, hshown, hkept⟩
  · rintro ⟨fields, old, shown, hv, hold, hshown, hkept⟩
    exact ⟨fields, hv, old, hold, shown, hshown, hkept⟩

theorem thins_of_thinM {R : Json → Option Json → Prop}
    (hitems : ∀ fields old, items fields = .ok old → (∀ x ∈ old, ∃ fs, x = .obj fs) →
      old = fields.itemsAt key)
    (hf : ∀ x kept, f x = .ok kept → R x kept) (hR : ∀ x kept, R x kept → ∃ fs, x = .obj fs)
    {v : Json} {kept : Option Json} (h : thinM key items f v = .ok kept) : Thins key R v kept := by
  obtain ⟨fields, old, shown, rfl, hold, hshown, rfl⟩ := thinM_eq_ok_iff.mp h
  have hobj : ∀ x ∈ old, ∃ fs, x = .obj fs := by
    intro x hx
    obtain ⟨kept, hkept⟩ := exists_keepM_iff.mp ⟨shown, hshown⟩ x hx
    exact hR x kept (hf x kept hkept)
  have hselects := (selects_of_keepM hshown).imp hf
  rw [hitems fields old hold hobj] at hselects
  cases shown with
  | nil => exact .dropped hselects
  | cons y ys =>
    obtain ⟨x, hx, -⟩ := hselects.exists_of_mem List.mem_cons_self
    have hhas : fields.has key = true := Fields.has_of_get? (Fields.get?_of_mem_itemsAt hx)
    exact .kept hselects (by simp) (differsAt_set hhas _)

/-- What thins out by a wider test first can be thinned out by the narrower one afterwards. -/
theorem narrows_thinM
    (hset : ∀ fields shown, items (Fields.set fields key (.arr shown)) = .ok shown)
    (hfg : Narrows f g) : Narrows (thinM key items f) (thinM key items g) := by
  intro v kept h
  obtain ⟨fields, old, shown, rfl, hold, hshown, rfl⟩ := thinM_eq_ok_iff.mp h
  obtain ⟨more, hmore, hshown⟩ := hfg.keepM hshown
  refine ⟨_, thinM_eq_ok_iff.mpr ⟨fields, old, more, rfl, hold, hmore, rfl⟩, ?_⟩
  cases more with
  | nil =>
    obtain rfl : shown = [] := pure_eq_ok_iff.mp hshown
    rfl
  | cons y ys =>
    refine thinM_eq_ok_iff.mpr ⟨_, y :: ys, shown, rfl, hset fields _, hshown, ?_⟩
    rw [Fields.set_set_of_same (Key.same_refl key)]

end Thinning

/-! ### Names of flavours -/

/-- The flavour that a name stands for: four names are those of tags, every other one stands for
itself. -/
inductive StandsFor : String → String → Prop
  | html : StandsFor "html" "core"
  | markup : StandsFor "markup" "core"
  | js : StandsFor "js" "react"
  | ts : StandsFor "ts" "angular"
  | itself {name : String} : name ∉ ["html", "markup", "js", "ts"] → StandsFor name name

theorem canonicalKind_of_notMem {name : String} (hname : name ∉ ["html", "markup", "js", "ts"]) :
    canonicalKind name = name := by
  have hfind : kindAliases.find? (fun a => a.1 == name) = none := by
    rw [List.find?_eq_none]
    intro a ha hname'
    rw [beq_iff_eq] at hname'
    obtain rfl := hname'
    have hmem : a.1 ∈ kindAliases.map Prod.fst := List.mem_map_of_mem ha
    exact hname hmem
  rw [canonicalKind, hfind]

/-- The canonical name of a flavour is the one that the name stands for. -/
theorem standsFor_iff {name flavour : String} : StandsFor name flavour ↔
    flavour = canonicalKind name := by
  constructor
  · intro h
    cases h with
    | itself hname => exact (canonicalKind_of_notMem hname).symm
    | _ => rfl
  · rintro rfl
    by_cases hname : name ∈ ["html", "markup", "js", "ts"]
    · simp only [List.mem_cons, List.not_mem_nil, or_false] at hname
      rcases hname with rfl | rfl | rfl | rfl
      · exact .html
      · exact .markup
      · exact .js
      · exact .ts
    · rw [canonicalKind_of_notMem hname]
      exact .itself hname

/-- A flavour is wanted: one of the given names stands for it. If none are given, all flavours
are. -/
def Wants (kinds? : Option Json) (flavour : String) : Prop :=
  match kinds? with
  | some v => ∃ items, v.elements = .ok items ∧ ∃ item ∈ items, StandsFor item.display flavour
  | none => ∃ kind : ExampleKind, flavour = kind.word

/-- A category is static: it is one of the given ones. If none are given, three are. -/
def IsStatic (static? : Option Json) (category : Key) : Prop :=
  match static? with
  | some v => ∃ items, v.elements = .ok items ∧
      ∃ item ∈ items, ∃ k, item.key? = some k ∧ k.same category = true
  | none => category = "overview" ∨ category = "develop" ∨ category = "styles"

theorem asKey_eq_ok_iff {v : Json} {k : Key} : v.asKey = .ok k ↔ v.key? = some k := by
  rw [Json.asKey]
  cases v.key? <;> simp

/-- The standard filter has the names of all flavours. -/
theorem contains_allKinds_iff {name : String} :
    Filter.allKinds.contains name = true ↔ ∃ kind : ExampleKind, name = kind.word := by
  rw [List.contains_iff_mem, Filter.allKinds, List.mem_map]
  have hword : ∀ kind : ExampleKind, canonicalKind kind.word = kind.word ∧
      kind ∈ ExampleKind.all := by
    intro kind
    cases kind <;> exact ⟨rfl, by decide⟩
  constructor
  · rintro ⟨kind, -, rfl⟩
    exact ⟨kind, (hword kind).1⟩
  · rintro ⟨kind, rfl⟩
    exact ⟨kind, (hword kind).2, (hword kind).1⟩

theorem keeps_defaultStatic_iff {kinds : List String} {category : Key} :
    Filter.keeps ⟨Filter.defaultStatic, kinds⟩ category = true ↔ IsStatic none category := by
  have hname : ∀ name : String, (Key.name name).same category = true ↔ category = name := by
    intro name
    rw [Key.same_comm]
    constructor
    · exact eq_name_of_same
    · rintro rfl
      exact Key.same_refl _
  simp [Filter.keeps, Filter.defaultStatic, IsStatic, hname]

theorem ofJson_eq_bind (static? kinds? : Option Json) : Filter.ofJson static? kinds? = (do
    let static ← static?.elim (pure Filter.defaultStatic) Filter.staticOf
    let kinds ← kinds?.elim (pure Filter.allKinds) Filter.kindsOf
    return { static, kinds }) := by
  cases static? <;> cases kinds? <;> rfl

/-- A filter keeps the static categories as they are, and looks for the wanted flavours. -/
theorem filter_ofJson {static? kinds? : Option Json} {f : Filter}
    (h : Filter.ofJson static? kinds? = .ok f) :
    (∀ category, f.keeps category = true ↔ IsStatic static? category) ∧
      ∀ name, f.kinds.contains name = true ↔ Wants kinds? name := by
  rw [ofJson_eq_bind] at h
  obtain ⟨static, hstatic, h⟩ := bind_eq_ok_iff.mp h
  obtain ⟨kinds, hkinds, h⟩ := bind_eq_ok_iff.mp h
  obtain rfl := pure_eq_ok_iff.mp h
  constructor
  · intro category
    cases static? with
    | none =>
      obtain rfl := pure_eq_ok_iff.mp hstatic
      exact keeps_defaultStatic_iff
    | some v =>
      obtain ⟨items, hitems, hkeys⟩ := bind_eq_ok_iff.mp hstatic
      have hkeys := mapM_eq_ok_iff.mp hkeys
      rw [Filter.keeps, List.any_eq_true]
      constructor
      · rintro ⟨k, hk, hsame⟩
        obtain ⟨item, hitem, hkey⟩ := exists_of_mem_right hkeys hk
        exact ⟨items, hitems, item, hitem, k, asKey_eq_ok_iff.mp hkey, hsame⟩
      · rintro ⟨_, hitems', item, hitem, k, hkey, hsame⟩
        obtain rfl := Except.ok.inj (hitems.symm.trans hitems')
        obtain ⟨k', hk', hkey'⟩ := exists_of_mem_left hkeys hitem
        obtain rfl := Except.ok.inj ((asKey_eq_ok_iff.mpr hkey).symm.trans hkey')
        exact ⟨k, hk', hsame⟩
  · intro name
    cases kinds? with
    | none =>
      obtain rfl := pure_eq_ok_iff.mp hkinds
      exact contains_allKinds_iff
    | some v =>
      obtain ⟨items, hitems, hkinds⟩ := bind_eq_ok_iff.mp hkinds
      obtain rfl := pure_eq_ok_iff.mp hkinds
      rw [List.contains_iff_mem, List.mem_map]
      constructor
      · rintro ⟨item, hitem, rfl⟩
        exact ⟨items, hitems, item, hitem, standsFor_iff.mpr rfl⟩
      · rintro ⟨_, hitems', item, hitem, hname⟩
        obtain rfl := Except.ok.inj (hitems.symm.trans hitems')
        exact ⟨item, hitem, (standsFor_iff.mp hname).symm⟩

/-! ### Sections -/

/-- At a key a section has an example of a wanted flavour: an object with a non-empty example, under
a name that stands for the flavour. -/
def HasExampleAt (wants : String → Prop) (s : Fields) (key : Key) : Prop :=
  ∃ map : Fields, s.get? key = some (.obj map) ∧
    ∃ (name : Key) (e : Fields) (flavour : String) (source : Json),
    (name, .obj e) ∈ map ∧ StandsFor name.toJson.display flavour ∧ wants flavour ∧
      e.get? "example" = some source ∧ source.isTruthy = true

/-- A section renders: it is marked as core or has an example of a wanted flavour. -/
def Renders (wants : String → Prop) (s : Fields) : Prop :=
  (∃ core, s.get? "core" = some core ∧ core.isTruthy = true) ∨
    HasExampleAt wants s "variations" ∨ HasExampleAt wants s "examples"

theorem truthy_getD_iff {fields : Fields} {key : Key} :
    (fields.getD key .null).isTruthy = true ↔ ∃ v, fields.get? key = some v ∧
      v.isTruthy = true := by
  rw [Fields.getD]
  cases fields.get? key <;> simp [Json.isTruthy]

/-- An example is an object whose source is not empty. -/
theorem isExample_iff {v : Json} : isExample v = true ↔ ∃ (e : Fields) (source : Json),
    v = .obj e ∧ e.get? "example" = some source ∧ source.isTruthy = true := by
  cases v with
  | obj e => simp [isExample, truthy_getD_iff]
  | _ => simp [isExample]

variable {kinds kinds' : List String} {wants : String → Prop}

theorem exhibits_iff (hkinds : ∀ name, kinds.contains name = true ↔ wants name) {s : Fields}
    {key : Key} :
    Exhibits kinds s key ↔ HasExampleAt wants s key := by
  have hmap : ∀ map : Fields, s.getD key .null = .obj map ↔ s.get? key = some (.obj map) := by
    intro map
    rw [Fields.getD]
    cases s.get? key <;> simp
  simp only [Exhibits, HasExampleAt, hmap]
  refine exists_congr fun map => and_congr_right fun _ => ?_
  constructor
  · rintro ⟨⟨name, v⟩, hmem, hname, hv⟩
    obtain ⟨e, source, rfl, hsource, htruthy⟩ := isExample_iff.mp hv
    exact ⟨name, e, _, source, hmem, standsFor_iff.mpr rfl, (hkinds _).mp hname, hsource, htruthy⟩
  · rintro ⟨name, e, flavour, source, hmem, hname, hwants, hsource, htruthy⟩
    obtain rfl := standsFor_iff.mp hname
    exact ⟨_, hmem, (hkinds _).mpr hwants, isExample_iff.mpr ⟨e, source, rfl, hsource, htruthy⟩⟩

/-- Showing and rendering are the same for a filter that has the wanted flavours. -/
theorem shows_iff (hkinds : ∀ name, kinds.contains name = true ↔ wants name) {s : Fields} :
    Shows kinds s ↔ Renders wants s := by
  rw [Shows, Renders, truthy_getD_iff, exhibits_iff hkinds, exhibits_iff hkinds]

/-- The sections that render stay as they are, and the others go. -/
inductive SectionStays (wants : String → Prop) : Json → Option Json → Prop
  | kept {s : Fields} : Renders wants s → SectionStays wants (.obj s) (some (.obj s))
  | dropped {s : Fields} : ¬Renders wants s → SectionStays wants (.obj s) none

/-- A section stays as the filter decides. -/
theorem sectionStays_of_shownSection? (hkinds : ∀ name, kinds.contains name = true ↔ wants name)
    {s : Json}
    {kept : Option Json} (h : shownSection? kinds s = .ok kept) : SectionStays wants s kept := by
  obtain ⟨fields, rfl, -⟩ := exists_shownSection?_iff.mp ⟨kept, h⟩
  have hrenders : isShown kinds (.obj fields) = .ok true ↔ Renders wants fields :=
    (isShown_eq_true_iff (exists_shownSection?_iff.mp ⟨kept, h⟩)).trans (shows_iff hkinds)
  obtain ⟨shown, hshown, h⟩ := bind_eq_ok_iff.mp h
  rw [pure_eq_ok_iff.mp h]
  rw [hshown] at hrenders
  cases shown with
  | true => exact .kept (hrenders.mp rfl)
  | false => exact .dropped fun hrenders' => absurd (hrenders.mpr hrenders') (by simp)

/-! ### More flavours -/

theorem Exhibits.mono (hkinds : kinds ⊆ kinds') {s : Fields} {key : Key}
    (h : Exhibits kinds s key) :
    Exhibits kinds' s key := by
  obtain ⟨map, hmap, e, he, hkind, hexample⟩ := h
  refine ⟨map, hmap, e, he, ?_, hexample⟩
  rw [List.contains_iff_mem] at hkind ⊢
  exact hkinds hkind

/-- With more flavours wanted, examples are found at least as early. -/
theorem IsReadable.mono (hkinds : kinds ⊆ kinds') {s : Json} (h : IsReadable kinds s) :
    IsReadable kinds' s := by
  obtain ⟨fields, rfl, hread⟩ := h
  refine ⟨fields, rfl, hread.imp_right fun ⟨hvariations, hrest⟩ => ⟨hvariations, ?_⟩⟩
  exact hrest.imp_left (Exhibits.mono hkinds)

/-- With more flavours wanted, more is shown. -/
theorem Shows.mono (hkinds : kinds ⊆ kinds') {s : Fields} (h : Shows kinds s) : Shows kinds' s :=
  h.imp_right (Or.imp (Exhibits.mono hkinds) (Exhibits.mono hkinds))

/-- A section that is shown for fewer flavours is shown for more. -/
theorem narrows_shownSection? (hkinds : kinds ⊆ kinds') :
    Narrows (shownSection? kinds) (shownSection? kinds') := by
  intro s kept h
  have hread := exists_shownSection?_iff.mp ⟨kept, h⟩
  obtain ⟨kept', hkept'⟩ := exists_shownSection?_iff.mpr (hread.mono hkinds)
  refine ⟨kept', hkept', ?_⟩
  cases kept' with
  | some s' =>
    obtain ⟨rfl, -⟩ := shownSection?_eq_some_iff.mp hkept'
    exact h
  | none =>
    cases kept with
    | none => rfl
    | some s' =>
      -- What is shown for few flavours is shown for more.
      obtain ⟨-, hshown⟩ := shownSection?_eq_some_iff.mp h
      have hread' := hread.mono hkinds
      cases s with
      | obj fields =>
        have hshows := (isShown_eq_true_iff hread).mp hshown
        have hshown' := (isShown_eq_true_iff hread').mpr (hshows.mono hkinds)
        have hsome := shownSection?_eq_some_iff.mpr ⟨rfl, hshown'⟩
        exact absurd (Except.ok.inj (hkept'.symm.trans hsome)) (by simp)
      | _ => cases hshown

/-! ### Children and categories -/

def listedChildren (fields : Fields) : Except ShapeFault (List Json) :=
  (fields.getD "children" (.arr [])).elements

/-- A child is thinned out by its sections. -/
theorem filterChild_eq_thinM (kinds : List String) :
    filterChild kinds = thinM "sections" filteredSections (shownSection? kinds) := by
  funext child
  simp only [filterChild, thinM, shownSections_eq_keepM]
  rfl

/-- A category is thinned out by its children. -/
theorem filterCategory_eq_thinM (kinds : List String) :
    filterCategory kinds = thinM "children" listedChildren (filterChild kinds) := by
  funext category
  simp only [filterCategory, thinM, filterChildren_eq_keepM]
  cases category <;> rfl

theorem getD_eq_itemsAt {fields : Fields} {key : Key} {default : Json} {old : List Json}
    (hdefault : default.elements = .ok []) (h : (fields.getD key default).elements = .ok old)
    (hobj : ∀ x ∈ old, ∃ fs, x = .obj fs) : old = fields.itemsAt key := by
  rw [Fields.getD] at h
  rw [Fields.itemsAt]
  cases hget : fields.get? key with
  | none =>
    rw [hget] at h
    exact (Except.ok.inj (hdefault.symm.trans h)).symm
  | some v =>
    rw [hget] at h
    rcases Json.eq_items_of_elements h hobj with hv | rfl
    · rw [show v = .arr old from hv]
    · cases v with
      | arr xs => exact (Except.ok.inj h).symm
      | _ => rfl

theorem listedChildren_eq_itemsAt {fields : Fields} {old : List Json}
    (h : listedChildren fields = .ok old)
    (hobj : ∀ x ∈ old, ∃ fs, x = .obj fs) : old = fields.itemsAt "children" :=
  getD_eq_itemsAt rfl h hobj

theorem filteredSections_eq_itemsAt {fields : Fields} {old : List Json}
    (h : filteredSections fields = .ok old) (hobj : ∀ x ∈ old, ∃ fs, x = .obj fs) :
    old = fields.itemsAt "sections" := by
  rw [filteredSections, Json.orElse] at h
  split at h
  · next htruthy =>
    obtain ⟨v, hget, -⟩ := truthy_getD_iff.mp htruthy
    have hlist : fields.getD "sections" .null = fields.getD "sections" (.arr []) := by
      rw [Fields.getD_of_get? hget, Fields.getD_of_get? hget]
    rw [hlist] at h
    exact getD_eq_itemsAt rfl h hobj
  · next hfalsy =>
    obtain rfl : [] = old := Except.ok.inj h
    rw [Fields.itemsAt]
    split
    · next items hget =>
      rw [Fields.getD_of_get? hget] at hfalsy
      simpa [Json.isTruthy] using hfalsy
    · rfl

/-- A child with a section that renders stays, with the sections that do. -/
def ChildStays (wants : String → Prop) : Json → Option Json → Prop :=
  Thins "sections" (SectionStays wants)

/-- A category with a child that stays does so too, with the children that do. -/
def CategoryStays (wants : String → Prop) : Json → Option Json → Prop :=
  Thins "children" (ChildStays wants)

/-- A child stays as the filter decides. -/
theorem childStays_of_filterChild (hkinds : ∀ name, kinds.contains name = true ↔ wants name)
    {child : Json} {kept : Option Json} (h : filterChild kinds child = .ok kept) :
      ChildStays wants child kept := by
  rw [filterChild_eq_thinM] at h
  refine thins_of_thinM (fun _ _ => filteredSections_eq_itemsAt)
    (fun _ _ => sectionStays_of_shownSection? hkinds) ?_ h
  rintro x kept (⟨-⟩ | ⟨-⟩) <;> exact ⟨_, rfl⟩

theorem categoryStays_of_filterCategory (hkinds : ∀ name, kinds.contains name = true ↔ wants name)
    {category : Json} {kept : Option Json} (h : filterCategory kinds category = .ok kept) :
    CategoryStays wants category kept := by
  rw [filterCategory_eq_thinM] at h
  refine thins_of_thinM (fun _ _ => listedChildren_eq_itemsAt)
    (fun _ _ => childStays_of_filterChild hkinds) ?_ h
  rintro x kept (_ | _) <;> exact ⟨_, rfl⟩

theorem narrows_filterCategory (hkinds : kinds ⊆ kinds') :
    Narrows (filterCategory kinds) (filterCategory kinds') := by
  have hchild : Narrows (filterChild kinds) (filterChild kinds') := by
    rw [filterChild_eq_thinM, filterChild_eq_thinM]
    refine narrows_thinM ?_ (narrows_shownSection? hkinds)
    intro fields shown
    exact filteredSections_of_get? (Fields.get?_set_self fields "sections" (.arr shown))
  rw [filterCategory_eq_thinM, filterCategory_eq_thinM]
  exact narrows_thinM children_set hchild

/-! ### Documents -/

/-- What a filter makes of an entry of a document. -/
inductive EntryStays (static : Key → Prop) (wants : String → Prop) :
    Key × Json → Option (Key × Json) → Prop
  | static {key : Key} {category : Json} : static key →
      EntryStays static wants (key, category) (some (key, category))
  | kept {key : Key} {category category' : Json} : ¬static key →
      CategoryStays wants category (some category') →
      EntryStays static wants (key, category) (some (key, category'))
  | dropped {key : Key} {category : Json} : ¬static key → CategoryStays wants category none →
      EntryStays static wants (key, category) none

theorem entryStays_of_filterEntry {f : Filter} {static : Key → Prop}
    (hstatic : ∀ category, f.keeps category = true ↔ static category)
    (hkinds : ∀ name, f.kinds.contains name = true ↔ wants name) {entry : Key × Json}
    {kept : Option (Key × Json)} (h : filterEntry f entry = .ok kept) :
    EntryStays static wants entry kept := by
  obtain ⟨key, category⟩ := entry
  rw [filterEntry] at h
  split at h
  · next hkeeps =>
    obtain rfl := Except.ok.inj h
    exact .static ((hstatic key).mp hkeeps)
  · next hkeeps =>
    have hnot : ¬static key := fun hs => hkeeps ((hstatic key).mpr hs)
    obtain ⟨kept', hkept', h⟩ := bind_eq_ok_iff.mp h
    rw [pure_eq_ok_iff.mp h]
    have hcategory := categoryStays_of_filterCategory hkinds hkept'
    cases kept' with
    | none => exact .dropped hnot hcategory
    | some category' => exact .kept hnot hcategory

theorem narrows_filterEntry {f g : Filter}
    (hkeeps : ∀ category, f.keeps category = g.keeps category)
    (hkinds : f.kinds ⊆ g.kinds) : Narrows (filterEntry f) (filterEntry g) := by
  rintro ⟨key, category⟩ kept h
  by_cases hkey : g.keeps key
  · exact ⟨some (key, category), by rw [filterEntry, if_pos hkey], h⟩
  · have hfilter : ∀ category, filterEntry f (key, category) =
        (do return (← filterCategory f.kinds category).map fun c => (key, c)) := by
      intro category
      rw [filterEntry, if_neg (by rw [hkeeps]; exact hkey)]
    rw [hfilter] at h
    obtain ⟨kept, hkept, h⟩ := bind_eq_ok_iff.mp h
    obtain rfl := pure_eq_ok_iff.mp h
    obtain ⟨kept', hkept', hmatch⟩ := narrows_filterCategory hkinds category kept hkept
    refine ⟨kept'.map fun c => (key, c), ?_, ?_⟩
    · rw [filterEntry, if_neg hkey, hkept']
      rfl
    · cases kept' with
      | none =>
        obtain rfl : kept = none := hmatch
        rfl
      | some category' =>
        have hagain : filterCategory f.kinds category' = .ok kept := hmatch
        show filterEntry f (key, category') = _
        rw [hfilter, hagain]
        rfl

/-- Filtering for more flavours first, and then for fewer, is filtering for the fewer. -/
theorem filter_narrowed {f g : Filter} (hkeeps : ∀ category, f.keeps category = g.keeps category)
    (hkinds : f.kinds ⊆ g.kinds) {merged docs : Json} (h : filter f merged = .ok docs) :
    ∃ docs', filter g merged = .ok docs' ∧ filter f docs' = .ok docs := by
  obtain ⟨old, new, rfl, rfl, hnew⟩ := filter_eq_ok_iff.mp h
  obtain ⟨more, hmore, hagain⟩ := (narrows_filterEntry hkeeps hkinds).keepM hnew
  exact ⟨.obj more, filter_eq_ok_iff.mpr ⟨old, more, rfl, rfl, hmore⟩,
    filter_eq_ok_iff.mpr ⟨more, new, rfl, rfl, hagain⟩⟩

theorem shelvesSection_of_categoryStays {category category' component s : Json}
    (h : CategoryStays wants category (some category'))
    (hs : ShelvesSection category' component s) :
    ShelvesSection category component s := by
  obtain ⟨child', sections, ⟨kids', hkids', hchild', hsections⟩, rfl, hs⟩ := hs
  obtain ⟨old, new, rfl, rfl, -, shown, hshown, hkids⟩ := h.of_some
  rw [children_obj, Fields.getD_of_get? hshown] at hkids'
  obtain rfl : shown = kids' := Except.ok.inj hkids'
  obtain ⟨child, hchild, hstays⟩ := hkids _ hchild'
  obtain ⟨fields, fields', rfl, hobj, hothers, shown', hshown', hfrom⟩ := hstays.of_some
  obtain rfl := Json.obj.inj hobj
  rw [Fields.getD_of_get? hshown'] at hsections
  obtain rfl := Json.arr.inj hsections
  obtain ⟨s', hs', hkept⟩ := hfrom s hs
  obtain rfl : s = s' := by cases hkept; rfl
  have hget := Fields.get?_of_mem_itemsAt hs'
  refine ⟨fields, fields.itemsAt "sections", ⟨old.itemsAt "children", ?_, hchild, ?_⟩, ?_, hs'⟩
  · rw [children_obj, Fields.getD_of_get? (Fields.get?_of_mem_itemsAt hchild)]
    rfl
  · exact Fields.getD_of_get? hget _
  · rw [componentKey, componentKey, Fields.getD, Fields.getD, hothers "component" rfl]

/-- Every section that is left was there before. -/
theorem listsSection_of_selects {static : Key → Prop} {old new : Fields}
    (h : Selects (EntryStays static wants) old new) {category : Key} {component s : Json}
    (hs : ListsSection (.obj new) category component s) :
      ListsSection (.obj old) category component s := by
  obtain ⟨_, c, hobj, hc, hs⟩ := hs
  obtain rfl := Json.obj.inj hobj
  obtain ⟨entry, hentry, hstays⟩ := h.exists_of_mem hc
  cases hstays with
  | static _ => exact ⟨old, c, rfl, hentry, hs⟩
  | kept _ hcategory =>
    exact ⟨old, _, rfl, hentry, shelvesSection_of_categoryStays hcategory hs⟩

/-- What a filter gives is a selection of the entries. -/
theorem selects_of_filter {static? kinds? : Option Json} {f : Filter}
    (hf : Filter.ofJson static? kinds? = .ok f) {merged docs : Json}
    (h : filter f merged = .ok docs) :
    ∃ old new : Fields, merged = .obj old ∧ docs = .obj new ∧
      Selects (EntryStays (IsStatic static?) (Wants kinds?)) old new := by
  obtain ⟨old, new, rfl, rfl, hnew⟩ := filter_eq_ok_iff.mp h
  obtain ⟨hstatic, hkinds⟩ := filter_ofJson hf
  refine ⟨old, new, rfl, rfl, (selects_of_keepM hnew).imp ?_⟩
  exact fun _ _ => entryStays_of_filterEntry hstatic hkinds

/-- **A filter is exact, idempotent and monotone.** It selects what renders and the static
categories; what it selected it selects again as it is; and if more flavours are wanted, nothing
goes that stayed before: the filter for fewer flavours gives the same for what the other one
leaves. -/
theorem filter_selects {static? kinds? : Option Json} {f : Filter}
    (hf : Filter.ofJson static? kinds? = .ok f) {merged docs : Json}
    (h : filter f merged = .ok docs) :
    (∃ old new : Fields, merged = .obj old ∧ docs = .obj new ∧
      Selects (EntryStays (IsStatic static?) (Wants kinds?)) old new) ∧
    filter f docs = .ok docs ∧
    ∀ (kinds'? : Option Json) (f' : Filter), Filter.ofJson static? kinds'? = .ok f' →
      (∀ flavour, Wants kinds? flavour → Wants kinds'? flavour) →
      ∃ docs', filter f' merged = .ok docs' ∧ filter f docs' = .ok docs ∧
        ∀ category component s, ListsSection docs category component s →
          ListsSection docs' category component s := by
  refine ⟨selects_of_filter hf h, filter_kept h, ?_⟩
  intro kinds'? f' hf' hmore
  obtain ⟨hstatic, hkinds⟩ := filter_ofJson hf
  obtain ⟨hstatic', hkinds'⟩ := filter_ofJson hf'
  have hkeeps : ∀ category, f.keeps category = f'.keeps category := by
    intro category
    rw [Bool.eq_iff_iff, hstatic, hstatic']
  have hsubset : f.kinds ⊆ f'.kinds := by
    intro name hname
    rw [← List.contains_iff_mem, hkinds] at hname
    rw [← List.contains_iff_mem, hkinds']
    exact hmore name hname
  obtain ⟨docs', hdocs', hagain⟩ := filter_narrowed hkeeps hsubset h
  refine ⟨docs', hdocs', hagain, ?_⟩
  intro category component s hs
  obtain ⟨old, new, rfl, rfl, hselects⟩ := selects_of_filter hf hagain
  exact listsSection_of_selects hselects hs

/-- Only React is asked for, by the name of its tag: of two sections one stays, and a tab and a
category without anything to render go. The static category stays as it is, although it has no
examples. -/
theorem filter_selects_react :
    let guides : Json := .obj [("children", .arr [.obj [("component", "colors")]])]
    let shown : Json := .obj [("section", "default"), ("variations",
      .obj [("react", .obj [("example", "<B/>")]), ("core", .null)])]
    let plain : Json := .obj [("section", "plain"),
      ("examples", .obj [("html", .obj [("example", "<b>")])])]
    let button : List Json → Json := fun sections => .obj
      [("component", "button"), ("sections", .arr sections), ("icon", "b")]
    let tab : Json := .obj [("component", "tab"), ("sections", .null)]
    let merged : Json := .obj [("guides", guides), ("widgets", .obj [("children", .arr [tab])]),
      ("components", .obj [("title", "All"), ("children", .arr [tab, button [plain, shown]])])]
    let docs : Json := .obj [("guides", guides),
      ("components", .obj [("title", "All"), ("children", .arr [button [shown]])])]
    let static? : Option Json := some (.arr ["guides"])
    let kinds? : Option Json := some (.arr ["js"])
    let kinds'? : Option Json := some (.arr ["markup", "react"])
    let f : Filter := ⟨["guides"], ["react"]⟩
    let f' : Filter := ⟨["guides"], ["core", "react"]⟩
    Filter.ofJson static? kinds? = .ok f ∧ Filter.ofJson static? kinds'? = .ok f' ∧
      filter f merged = .ok docs ∧
      (∃ old new : Fields, merged = .obj old ∧ docs = .obj new ∧
        Selects (EntryStays (IsStatic static?) (Wants kinds?)) old new) ∧
      filter f docs = .ok docs ∧
      ∃ docs', filter f' merged = .ok docs' ∧ filter f docs' = .ok docs ∧
        ∀ category component s, ListsSection docs category component s →
          ListsSection docs' category component s := by
  intro guides shown plain button tab merged docs static? kinds? kinds'? f f'
  have hf : Filter.ofJson static? kinds? = .ok f := rfl
  have hf' : Filter.ofJson static? kinds'? = .ok f' := rfl
  have hdocs : filter f merged = .ok docs := rfl
  have hmore : ∀ flavour, Wants kinds? flavour → Wants kinds'? flavour := by
    rintro flavour ⟨_, hitems, item, hitem, hstands⟩
    obtain rfl := Except.ok.inj hitems
    obtain rfl := List.mem_singleton.mp hitem
    obtain rfl := standsFor_iff.mp hstands
    exact ⟨_, rfl, .str "react", by simp, standsFor_iff.mpr rfl⟩
  obtain ⟨hselects, hagain, hmono⟩ := filter_selects hf hdocs
  exact ⟨hf, hf', hdocs, hselects, hagain, hmono kinds'? f' hf' hmore⟩

end Navigation

end StyleGuide

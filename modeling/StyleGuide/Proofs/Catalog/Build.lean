import StyleGuide.Proofs.Catalog.Entering

/-!
# Entering fragments one by one gives the catalog of the whole list

The builder is run beside the walk that gives each fragment its place. `Represents` says how the two
go together: the catalog under construction is the catalog of the places found so far, and the
builder remembers what the walk does. One fragment keeps this (`Represents.step`), and so does a
list of them (`Represents.run`). The builder looks a component up before it adds properties to it;
the look-up succeeds because the walk has passed a block that declares the component.
-/

namespace StyleGuide

/-! ### Categories and catalogs -/

/-- Components are changed or added as `upsert` does it. -/
theorem modifyComponent_eq_upsert (key : Json) (create : Component)
    (change : Component → Component) (ks : List Component) :
    Category.modifyComponent.modify key create change ks =
      upsert (fun k => k.key.same key) change (change create) ks := by
  induction ks with
  | nil => rfl
  | cons k ks ih => rw [Category.modifyComponent.modify, upsert, ih]

/-- So are categories. -/
theorem modifyCategory_eq_upsert (key : Json) (change : Category → Category)
    (cs : List Category) :
    Catalog.modifyCategory.modify key change cs =
      upsert (fun c => c.key.same key) change (change { key := key }) cs := by
  induction cs with
  | nil => rfl
  | cons c cs ih => rw [Catalog.modifyCategory.modify, upsert, ih]

/-- Every component that has a block has one that declares it. -/
def Founded (fs : List Filing) : Prop :=
  ∀ x ∈ fs, ∃ y ∈ fs, y.declares = true ∧ y.category = x.category ∧ y.component = x.component

variable {fs : List Filing} {x : Filing}

/-- Among texts, being the same is being equal. -/
theorem same_category (hfs : ∀ y ∈ fs, y.isTyped = true) (hx : x.isTyped = true) :
    ∀ l ∈ fs.filterMap fun y => some y.category, l.same x.category = decide (l = x.category) := by
  apply same_eq_decide_of_mem _ (Filing.isTyped_iff.mp hx).1
  rintro y hy _ ⟨⟩
  exact (Filing.isTyped_iff.mp (hfs y hy)).1

theorem same_component (hfs : ∀ y ∈ fs, y.isTyped = true) (hx : x.isTyped = true) :
    ∀ l ∈ fs.filterMap fun y => some y.component,
      l.same x.component = decide (l = x.component) := by
  apply same_eq_decide_of_mem _ (Filing.isTyped_iff.mp hx).2.1
  rintro y hy _ ⟨⟩
  exact (Filing.isTyped_iff.mp (hfs y hy)).2.1

/-- The blocks of one category are founded if all are. -/
theorem Founded.filter_category (h : Founded fs) (category : Json) :
    Founded (fs.filter fun y => some y.category = some category) := by
  intro y hy
  obtain ⟨hmem, hcat⟩ := List.mem_filter.mp hy
  obtain ⟨z, hz, hd, hzc, hzk⟩ := h y hmem
  exact ⟨z, List.mem_filter.mpr ⟨hz, by rw [hzc]; exact hcat⟩, hd, hzc, hzk⟩

/-- The blocks of a component include one that declares it. -/
theorem Founded.declaringBlocks_ne_nil (h : Founded fs) {component : Json}
    (hmem : component ∈ fs.filterMap fun y => some y.component) :
    declaringBlocks (fs.filter fun y => some y.component = some component) ≠ [] := by
  obtain ⟨y, hy, hyc⟩ := List.mem_filterMap.mp hmem
  obtain ⟨z, hz, hd, -, hzk⟩ := h y hy
  have hzmem : z ∈ (fs.filter fun y => some y.component = some component).filter (·.declares) := by
    refine List.mem_filter.mpr ⟨List.mem_filter.mpr ⟨hz, ?_⟩, hd⟩
    rw [hzk]
    simpa using hyc
  exact List.ne_nil_of_mem (List.mem_map_of_mem hzmem)

/-- A declaring block entered into a category, which may be empty. -/
theorem modifyComponent_categoryOf (hfs : ∀ y ∈ fs, y.isTyped = true) (hx : x.isTyped = true)
    (hfound : Founded fs) (hd : x.declares = true) (key : Json) :
    (categoryOf key fs).modifyComponent x.component (.ofFragment x.component x.block)
        (fun k => (k.redeclare x.block).enter x.block) = categoryOf key (fs ++ [x]) := by
  unfold Category.modifyComponent categoryOf
  dsimp only
  rw [modifyComponent_eq_upsert]
  congr 1
  symm
  apply grouped_concat (fun y : Filing => some y.component) (k := x.component) rfl
  · exact same_component hfs hx
  · intro hmem
    exact Component.enter_componentOf (fun y hy => hfs y (List.mem_filter.mp hy).1) hx hd
      (hfound.declaringBlocks_ne_nil hmem) x.component
  · exact Component.enter_ofFragment hx hd x.component

/-- A declaring block entered into the catalog. -/
theorem enter_catalogOf (hfs : ∀ y ∈ fs, y.isTyped = true) (hx : x.isTyped = true)
    (hfound : Founded fs) (hd : x.declares = true) :
    (catalogOf fs).enter x.category x.component x.block = catalogOf (fs ++ [x]) := by
  unfold Catalog.enter Catalog.modifyCategory catalogOf
  dsimp only
  rw [modifyCategory_eq_upsert]
  congr 1
  symm
  apply grouped_concat (fun y : Filing => some y.category) (k := x.category) rfl
  · exact same_category hfs hx
  · intro _
    exact modifyComponent_categoryOf (fun y hy => hfs y (List.mem_filter.mp hy).1) hx
      (hfound.filter_category x.category) hd x.category
  · have hnone : ∀ y ∈ ([] : List Filing), y.isTyped = true := by simp
    have hempty : Founded [] := by
      intro y hy
      simp at hy
    exact modifyComponent_categoryOf hnone hx hempty hd x.category

/-- Some block has the place. -/
def Occupied (fs : List Filing) (category component : Json) : Prop :=
  ∃ y ∈ fs, y.category = category ∧ y.component = component

/-- A block with only properties, entered into the catalog. -/
theorem addProps_catalogOf (hfs : ∀ y ∈ fs, y.isTyped = true) (hx : x.isTyped = true)
    (hocc : Occupied fs x.category x.component) (hd : x.declares = false) :
    (catalogOf fs).addProps x.category x.component x.block.props = catalogOf (fs ++ [x]) := by
  obtain ⟨z, hz, hzc, hzk⟩ := hocc
  unfold Catalog.addProps catalogOf
  dsimp only
  congr 1
  symm
  apply grouped_concat_eq_map (fun y : Filing => some y.category) (k := x.category) rfl
  · exact List.mem_filterMap.mpr ⟨z, hz, by rw [hzc]⟩
  · exact same_category hfs hx
  · unfold categoryOf
    dsimp only
    congr 1
    symm
    apply grouped_concat_eq_map (fun y : Filing => some y.component) (k := x.component) rfl
    · refine List.mem_filterMap.mpr ⟨z, List.mem_filter.mpr ⟨hz, ?_⟩, by rw [hzk]⟩
      simpa using hzc
    · exact same_component (fun y hy => hfs y (List.mem_filter.mp hy).1) hx
    · exact Component.addProps_componentOf
        (fun y hy => hfs y (List.mem_filter.mp (List.mem_filter.mp hy).1).1) hx hd x.component

/-- A component that has a block is found. -/
theorem component?_catalogOf (hfs : ∀ y ∈ fs, y.isTyped = true) {category component : Json}
    (hocc : Occupied fs category component) :
    ((catalogOf fs).component? category component).isSome = true := by
  obtain ⟨z, hz, rfl, rfl⟩ := hocc
  have hcategory : (catalogOf fs).category? z.category =
      some (categoryOf z.category (fs.filter fun y => some y.category = some z.category)) := by
    unfold Catalog.category?
    have hfind : ∃ c, (catalogOf fs).categories.find? (fun c => c.key.same z.category) =
        some c := by
      rw [← Option.isSome_iff_exists, List.find?_isSome]
      refine ⟨_, (mem_grouped _).mpr ⟨z.category, ?_, rfl⟩, Json.same_refl z.category⟩
      exact List.mem_filterMap.mpr ⟨z, hz, rfl⟩
    obtain ⟨c, hc⟩ := hfind
    -- What is found has the key, and so it is the group of the key.
    have hsame := List.find?_some hc
    obtain ⟨k, hk, rfl⟩ := (mem_grouped _).mp (List.mem_of_find?_eq_some hc)
    change k.same z.category = true at hsame
    rw [same_category hfs (hfs z hz) k hk] at hsame
    rw [hc, of_decide_eq_true hsame]
  rw [Catalog.component?, hcategory, Option.bind_some, Category.component?, List.find?_isSome]
  refine ⟨_, (mem_grouped _).mpr ⟨z.component, ?_, rfl⟩, Json.same_refl z.component⟩
  exact List.mem_filterMap.mpr ⟨z, List.mem_filter.mpr ⟨hz, by simp⟩, rfl⟩

/-! ### The builder beside the walk -/

/-- The builder has the catalog of the places found so far, and remembers what the walk
remembers. -/
structure Represents (b : Builder) (c : FileContext) (fs : List Filing) : Prop where
  catalog : b.catalog = catalogOf fs
  file : b.file = c.file.getD .null
  category : b.category = c.category.getD .null
  component : b.component = c.component.getD .null
  fileText : ∀ v, c.file = some v → v.isText = true
  categoryText : ∀ v, c.category = some v → v.isText = true ∧ v.isTruthy = true
  componentText : ∀ v, c.component = some v → v.isText = true ∧ v.isTruthy = true
  typed : ∀ x ∈ fs, x.isTyped = true
  founded : Founded fs
  occupied : ∀ v, c.component = some v → ∃ w, c.category = some w ∧ Occupied fs w v

theorem represents_new : Represents {} {} [] where
  catalog := rfl
  file := rfl
  category := rfl
  component := rfl
  fileText := by simp
  categoryText := by simp
  componentText := by simp
  typed := by simp
  founded := by simp [Founded]
  occupied := by simp

theorem isText_ne_null {v : Json} (hv : v.isText = true) : Json.null.same v = false := by
  obtain ⟨s, rfl⟩ := Json.exists_str_of_isText hv
  simp [Json.same, Json.canonical]

namespace Represents

variable {b : Builder} {c : FileContext} {f : Fragment} {default : Json}

/-- A change of file is seen on both sides. -/
theorem atFile (h : Represents b c fs) {file : Json} (hfile : file.isText = true) :
    Represents (b.atFile file) (c.enterFile file) fs := by
  have hsame : b.file.same file = decide (c.file = some file) := by
    rw [h.file]
    cases hc : c.file with
    | none => simpa using isText_ne_null hfile
    | some v => simpa using Json.same_of_isText (h.fileText v hc) hfile
  unfold Builder.atFile FileContext.enterFile
  rw [hsame]
  by_cases hc : c.file = some file
  · simp only [hc, decide_true, if_true]
    exact h
  · simp only [hc, decide_false, if_false, Bool.false_eq_true]
    exact {
      catalog := h.catalog
      file := rfl
      category := rfl
      component := rfl
      fileText := by rintro v ⟨⟩; exact hfile
      categoryText := by simp
      componentText := by simp
      typed := h.typed
      founded := h.founded
      occupied := by simp }

/-- The category of a declaring block is the one that the walk gives it. -/
theorem categoryFor_eq (h : Represents b c fs) :
    b.categoryFor default f = ((f.key? .category).or c.category).getD default := by
  unfold Builder.categoryFor
  cases hf : f.key? .category with
  | some category => rfl
  | none =>
    rw [h.category]
    cases hc : c.category with
    | none => rfl
    | some category => simp [(h.categoryText category hc).2]

/-- The category of a block is a text that is not empty. -/
theorem isText_categoryFor (h : Represents b c fs) (hf : f.isTyped = true)
    (hdefault : default.isText = true ∧ default.isTruthy = true) :
    (b.categoryFor default f).isText = true ∧ (b.categoryFor default f).isTruthy = true := by
  rw [h.categoryFor_eq]
  cases hk : f.key? .category with
  | some category => exact Fragment.isText_key? hf (by simp) hk
  | none =>
    cases hc : c.category with
    | none => exact hdefault
    | some category => exact h.categoryText category hc

/-- A declaring block. -/
theorem declare (h : Represents b c fs) (hf : f.isTyped = true)
    (hdefault : default.isText = true ∧ default.isTruthy = true) {component : Json}
    (hk : f.key? .component = some component) :
    Represents
      { b with
        catalog := b.catalog.enter (b.categoryFor default f) component f
        category := b.categoryFor default f
        component := component }
      { c with category := some (b.categoryFor default f), component := some component }
      (fs ++ [⟨b.categoryFor default f, component, true, f⟩]) := by
  have hcategory := h.isText_categoryFor hf hdefault
  have hcomponent := Fragment.isText_key? hf (by simp) hk
  generalize b.categoryFor default f = category at hcategory ⊢
  have hx : Filing.isTyped ⟨category, component, true, f⟩ = true := by
    simp [Filing.isTyped, hcategory.1, hcomponent.1, hf]
  exact {
    catalog := by
      rw [h.catalog]
      exact enter_catalogOf h.typed hx h.founded rfl
    file := h.file
    category := rfl
    component := rfl
    fileText := h.fileText
    categoryText := by rintro v ⟨⟩; exact hcategory
    componentText := by rintro v ⟨⟩; exact hcomponent
    typed := List.forall_mem_append.mpr ⟨h.typed, List.forall_mem_singleton.mpr hx⟩
    founded := by
      intro y hy
      rcases List.mem_append.mp hy with hy | hy
      · obtain ⟨z, hz, hd⟩ := h.founded y hy
        exact ⟨z, List.mem_append_left _ hz, hd⟩
      · obtain rfl := List.mem_singleton.mp hy
        exact ⟨_, List.mem_append_right _ hy, rfl, rfl, rfl⟩
    occupied := by
      rintro v ⟨⟩
      exact ⟨category, rfl, _, List.mem_append_right _ (List.mem_singleton.mpr rfl), rfl, rfl⟩ }

/-- A block that names the category of those that follow. -/
theorem header (h : Represents b c fs) (hf : f.isTyped = true) {category : Json}
    (hk : f.key? .category = some category) :
    Represents { b with category := category, component := .null }
      { c with category := some category, component := none } fs where
  catalog := h.catalog
  file := h.file
  category := rfl
  component := rfl
  fileText := h.fileText
  categoryText := by rintro v ⟨⟩; exact Fragment.isText_key? hf (by simp) hk
  componentText := by simp
  typed := h.typed
  founded := h.founded
  occupied := by simp

/-- A block with only properties. -/
theorem extend (h : Represents b c fs) (hf : f.isTyped = true) {category component : Json}
    (hcategory : c.category = some category) (hcomponent : c.component = some component) :
    Represents { b with catalog := b.catalog.addProps category component f.props } c
      (fs ++ [⟨category, component, false, f⟩]) := by
  obtain ⟨w, hw, hocc⟩ := h.occupied component hcomponent
  obtain rfl : w = category := Option.some.inj (hw.symm.trans hcategory)
  have hx : Filing.isTyped ⟨w, component, false, f⟩ = true := by
    simp [Filing.isTyped, h.categoryText w hcategory, h.componentText component hcomponent, hf]
  exact {
    catalog := by
      rw [h.catalog]
      exact addProps_catalogOf h.typed hx hocc rfl
    file := h.file
    category := h.category
    component := h.component
    fileText := h.fileText
    categoryText := h.categoryText
    componentText := h.componentText
    typed := List.forall_mem_append.mpr ⟨h.typed, List.forall_mem_singleton.mpr hx⟩
    founded := by
      intro y hy
      -- The new block has the place of an old one, which is founded.
      have hold : ∃ y' ∈ fs, y'.category = y.category ∧ y'.component = y.component := by
        rcases List.mem_append.mp hy with hy | hy
        · exact ⟨y, hy, rfl, rfl⟩
        · obtain rfl := List.mem_singleton.mp hy
          exact hocc
      obtain ⟨y', hy', hcat, hcomp⟩ := hold
      obtain ⟨z, hz, hd, hzc, hzk⟩ := h.founded y' hy'
      exact ⟨z, List.mem_append_left _ hz, hd, hzc.trans hcat, hzk.trans hcomp⟩
    occupied := by
      intro v hv
      obtain ⟨w', hw', y, hy, hplace⟩ := h.occupied v hv
      exact ⟨w', hw', y, List.mem_append_left _ hy, hplace⟩ }

/-- A block that neither has nor finds a component. -/
theorem target?_eq_none (h : Represents b c fs) (hcomponent : c.component = none) :
    b.target? = none := by
  unfold Builder.target?
  rw [h.component, hcomponent]
  simp [Json.isTruthy]

/-- The component that the file declared last is found. -/
theorem isSome_target? (h : Represents b c fs) {component : Json}
    (hcomponent : c.component = some component) : b.target?.isSome = true := by
  obtain ⟨category, hcategory, hocc⟩ := h.occupied component hcomponent
  have hb : b.category = category := by
    rw [h.category, hcategory]
    rfl
  have hb' : b.component = component := by
    rw [h.component, hcomponent]
    rfl
  unfold Builder.target?
  rw [hb, hb', (h.categoryText category hcategory).2, (h.componentText component hcomponent).2,
    h.catalog]
  exact component?_catalogOf h.typed hocc

/-- **One step.** Entering a fragment goes along with finding its place. -/
theorem step (h : Represents b c fs) (hf : f.isTyped = true)
    (hdefault : default.isText = true ∧ default.isTruthy = true) :
    Represents (b.step default f) ((c.enterFile f.file).after default f)
      (fs ++ ((c.enterFile f.file).filing? default f).toList) := by
  have h := h.atFile (Fragment.isText_file hf)
  unfold Builder.step
  generalize b.atFile f.file = b at h ⊢
  generalize c.enterFile f.file = c at h ⊢
  -- A block declares a component, or names a category, or may add properties to the last component.
  cases hk : f.key? .component with
  | some component =>
    have hdeclare := h.declare hf hdefault hk
    rw [h.categoryFor_eq] at hdeclare
    simp only [FileContext.after, FileContext.filing?, hk, h.categoryFor_eq]
    exact hdeclare
  | none =>
    dsimp only
    unfold Builder.enterLoose Builder.header
    cases hcat : f.key? .category with
    | some category =>
      have hheader := h.header hf hcat
      simp only [FileContext.after, FileContext.filing?, hk, hcat, hheader.target?_eq_none rfl]
      simpa using hheader
    | none =>
      simp only [FileContext.after, FileContext.filing?, hk, hcat]
      cases hcomponent : c.component with
      | none =>
        rw [h.target?_eq_none hcomponent]
        simpa using h
      | some component =>
        obtain ⟨category, hcategory, -⟩ := h.occupied component hcomponent
        obtain ⟨target, htarget⟩ := Option.isSome_iff_exists.mp (h.isSome_target? hcomponent)
        have hextend := h.extend hf hcategory hcomponent
        rw [htarget, hcategory]
        simpa [h.category, h.component, hcategory, hcomponent] using hextend

/-! ### No faults -/

theorem propsFault?_eq_none (hf : f.isTyped = true) : Component.propsFault? f.props = none := by
  unfold Component.propsFault?
  rw [if_neg]
  rw [Bool.not_eq_true, List.any_eq_false]
  intro p hp
  have hlibrary := Property.isPlain_library (Fragment.isPlain_of_mem_props hf hp)
  simp [Json.isKey_of_isText hlibrary]

/-- A fragment of the usual types can be entered below its component. -/
theorem enterFault?_eq_none (hf : f.isTyped = true) : Component.enterFault? f = none := by
  have hvariant : Component.variantFault? f = none := by
    unfold Component.variantFault?
    split
    · next _ variant _ hv =>
      rw [if_pos (Json.isKey_of_isText (Fragment.isText_key? hf (by simp) hv).1)]
    · rfl
  unfold Component.enterFault?
  rw [hvariant, propsFault?_eq_none hf]
  rfl

theorem targetFault?_eq_none (h : Represents b c fs) : b.targetFault? f = none := by
  unfold Builder.targetFault?
  cases hcomponent : c.component with
  | none =>
    have hb : b.component.isTruthy = false := by
      rw [h.component, hcomponent]
      rfl
    simp [hb]
  | some component =>
    obtain ⟨category, hcategory, -⟩ := h.occupied component hcomponent
    have hkeys : b.category.isKey = true ∧ b.component.isKey = true := by
      rw [h.category, hcategory, h.component, hcomponent]
      exact ⟨Json.isKey_of_isText (h.categoryText category hcategory).1,
        Json.isKey_of_isText (h.componentText component hcomponent).1⟩
    simp [Catalog.lookupFault?, hkeys]

/-- A block of the usual types without a component has no fault either. -/
theorem enterLooseFault?_eq_none (h : Represents b c fs) (hf : f.isTyped = true) :
    b.enterLooseFault? f = none := by
  have htarget : (b.header f).targetFault? f = none := by
    unfold Builder.header
    split
    · next category hk => exact (h.header hf hk).targetFault?_eq_none
    · exact h.targetFault?_eq_none
  unfold Builder.enterLooseFault?
  simp only [htarget, propsFault?_eq_none hf, Option.none_or]
  cases (b.header f).target? <;> rfl

/-- A fragment with the usual values can always be entered. -/
theorem fault?_eq_none (h : Represents b c fs) (hf : f.isTyped = true)
    (hdefault : default.isText = true ∧ default.isTruthy = true) : b.fault? default f = none := by
  have h := h.atFile (Fragment.isText_file hf)
  unfold Builder.fault?
  generalize b.atFile f.file = b at h ⊢
  generalize c.enterFile f.file = c at h
  cases hk : f.key? .component with
  | some component =>
    have hcategory := (h.isText_categoryFor hf hdefault).1
    have hcomponent := (Fragment.isText_key? hf (by simp) hk).1
    simp [Json.isKey_of_isText hcategory, Json.isKey_of_isText hcomponent, enterFault?_eq_none hf]
  | none => exact h.enterLooseFault?_eq_none hf

/-- **A whole run.** Entering fragments one after the other has no fault, and gives the catalog of
the places found before and in the run. -/
theorem run (h : Represents b c fs) {blocks : List Fragment}
    (hblocks : ∀ f ∈ blocks, f.isTyped = true)
    (hdefault : default.isText = true ∧ default.isTruthy = true) :
    b.runFault? default blocks = none ∧
      (b.run default blocks).catalog = catalogOf (fs ++ filings default c blocks) := by
  induction blocks generalizing b c fs with
  | nil =>
    rw [filings, List.append_nil]
    exact ⟨rfl, h.catalog⟩
  | cons f rest ih =>
    obtain ⟨hf, hrest⟩ := List.forall_mem_cons.mp hblocks
    obtain ⟨hfault, hcatalog⟩ := ih (h.step hf hdefault) hrest
    constructor
    · rw [Builder.runFault?, h.fault?_eq_none hf hdefault, Option.none_or]
      exact hfault
    · rw [filings, ← List.append_assoc]
      exact hcatalog

end Represents

/-- **The builder files by groups.** Entering fragments with the usual values into the empty
catalog, under a default category that is not empty, succeeds and gives the catalog that is read off
the whole list: every fragment finds its place by what its file has declared before it, and the
fragments of one place are grouped. -/
theorem build_eq_catalogOf_filings (default : String) (hdefault : default ≠ "")
    (blocks : List Fragment) (hblocks : ∀ f ∈ blocks, f.isTyped = true) :
    Catalog.build (.str default) {} blocks =
      .ok (catalogOf (filings (.str default) {} blocks)) := by
  have htruthy : Json.isTruthy (.str default) = true := by simpa [Json.isTruthy] using hdefault
  obtain ⟨hfault, hcatalog⟩ := represents_new.run hblocks ⟨rfl, htruthy⟩
  unfold Catalog.build Catalog.extend
  rw [hfault, hcatalog, List.nil_append]

/-- A block that names a category, one that declares a button, and one with a property for it. -/
theorem build_eq_catalogOf_filings_header_button_prop :
    let size : Property :=
      { name := "size", type := "string", description := "", default := .null,
        required := .bool false, library := "react" }
    Catalog.build "Other" {}
        [{ file := "a.js", start := .int 1, stop := .int 1,
           tags := [(.category, [.data "Inputs"])] },
         { file := "a.js", start := .int 2, stop := .int 4,
           tags := [(.component, [.data "button"]), (.name, [.data "Button"])] },
         { file := "a.js", start := .int 5, stop := .int 6, tags := [(.prop, [.prop size])] }] =
      .ok ⟨[{ key := "Inputs"
              components :=
                [{ key := "button", name := "Button", tables := [⟨"react", [size]⟩] }] }]⟩ :=
  (build_eq_catalogOf_filings "Other" (by decide) _ (by decide)).trans
    (congrArg Except.ok (by decide))

end StyleGuide

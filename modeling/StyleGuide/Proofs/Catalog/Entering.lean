import StyleGuide.Proofs.Catalog.Reference

/-!
# One more block

What entering a block does to a component that has been read off a list of blocks: the result is
the component of the list with the block at its end. This is shown from the inside out, for the
variants of a section, the sections of a component, the properties of a library, the tables of a
component, and the component itself. At each level entering is an `upsert`, and `grouped_concat`
does the rest.
-/

namespace StyleGuide

/-! ### Variants -/

/-- The first of some blocks stays the first when one more comes at the end. -/
theorem headD_concat {α : Type} {xs : List α} (hxs : xs ≠ []) (x default : α) :
    (xs ++ [x]).headD default = xs.headD default := by
  cases xs with
  | nil => exact absurd rfl hxs
  | cons y ys => rfl

/-- A group has an item if its key occurs. -/
theorem filter_key_ne_nil {α κ : Type} [DecidableEq κ] {key : α → Option κ} {xs : List α} {k : κ}
    (hk : k ∈ xs.filterMap key) : (xs.filter fun y => key y = some k) ≠ [] := by
  obtain ⟨y, hy, hyk⟩ := List.mem_filterMap.mp hk
  exact List.ne_nil_of_mem (List.mem_filter.mpr ⟨hy, by simpa using hyk⟩)

/-- If all keys are texts, then an entry is found exactly by its own key. -/
theorem same_eq_decide_of_mem {α : Type} {key : α → Option Json} {xs : List α} {k : Json}
    (hxs : ∀ x ∈ xs, ∀ l, key x = some l → l.isText = true) (hk : k.isText = true) :
    ∀ l ∈ xs.filterMap key, l.same k = decide (l = k) := by
  intro l hl
  obtain ⟨x, hx, hxl⟩ := List.mem_filterMap.mp hl
  exact Json.same_of_isText (hxs x hx l hxl) hk

namespace Fragment

variable {f : Fragment}

/-- The example of a flavour is the first of all that its tags give. -/
theorem example?_eq_head? (hf : f.isTyped = true) (flavour : ExampleKind) :
    f.example? flavour = (f.examples flavour).head? := by
  unfold example? examples
  rw [List.head?_flatMap]
  have hhead : ∀ kind, (f.entries kind).head? = f.datum? kind := by
    intro kind
    simp [entries, datum?, first?]
  have hgiven : ∀ kind ∈ flavour.sources, f.given? kind = (f.entries kind).head? := by
    intro kind hkind
    rw [hhead, given?_eq_datum? hf hkind]
  -- From here on any list of kinds will do.
  revert hgiven
  generalize flavour.sources = kinds
  intro hgiven
  induction kinds with
  | nil => rfl
  | cons kind kinds ih =>
    rw [List.findSome?_cons, List.findSome?_cons, hgiven kind (by simp)]
    rw [ih fun k hk => hgiven k (by simp [hk])]

/-- A variant is made of one block as of several. -/
theorem toVariant_eq (hf : f.isTyped = true) (key : Json) :
    f.toVariant key = variantOf key [f] := by
  unfold toVariant variantOf
  simp only [example?_eq_head? hf, List.headD_cons]
  simp [entries, datum?, first?]

/-- A section is made of one block as of several, but without its variants. -/
theorem toSection_eq (hf : f.isTyped = true) (key : Json) :
    f.toSection key = { sectionOf key [f] with variants := [] } := by
  unfold toSection sectionOf
  simp only [example?_eq_head? hf, List.headD_cons]
  simp [entries, datum?, first?]

end Fragment

theorem variantOf_concat {blocks : List Fragment} (hb : blocks ≠ []) (key : Json) (f : Fragment) :
    variantOf key (blocks ++ [f]) = variantOf key blocks := by
  unfold variantOf
  rw [headD_concat hb]

/-- Adding the variant of a typed block to a section, if it names one. -/
def Section.withVariantOf (s : Section) (f : Fragment) : Section :=
  match f.key? .variation with
  | some variant => s.addVariant (f.toVariant variant)
  | none => s

theorem Section.addVariant_eq (s : Section) (v : Variant) :
    s.addVariant v =
      { s with variants := upsert (fun w => w.key.same v.key) id v s.variants } := by
  unfold addVariant
  rw [upsert_id]
  split <;> rfl

/-- Adding the variant of one more block gives the variants of the longer list. -/
theorem withVariantOf_grouped {blocks : List Fragment} {f : Fragment} {s : Section}
    (hb : ∀ g ∈ blocks, g.isTyped = true) (hf : f.isTyped = true)
    (hs : s.variants = grouped (Fragment.key? · .variation) variantOf blocks) :
    s.withVariantOf f = { s with
      variants := grouped (Fragment.key? · .variation) variantOf (blocks ++ [f]) } := by
  unfold Section.withVariantOf
  cases hv : f.key? .variation with
  | none =>
    rw [grouped_concat_of_none (Fragment.key? · .variation) hv, ← hs]
  | some variant =>
    obtain ⟨hvariant, -⟩ := Fragment.isText_key? hf (by simp) hv
    dsimp only
    rw [Section.addVariant_eq, hs]
    congr 1
    symm
    apply grouped_concat (Fragment.key? · .variation) hv
    · exact same_eq_decide_of_mem
        (fun g hg _ hgl => (Fragment.isText_key? (hb g hg) (by simp) hgl).1) hvariant
    · intro hmem
      rw [variantOf_concat (filter_key_ne_nil hmem), id]
    · exact Fragment.toVariant_eq hf variant

/-! ### Sections -/

/-- One more block adds its variant to the section, and nothing else. -/
theorem sectionOf_concat {blocks : List Fragment} {f : Fragment} (hne : blocks ≠ [])
    (hb : ∀ g ∈ blocks, g.isTyped = true) (hf : f.isTyped = true) (key : Json) :
    (sectionOf key blocks).withVariantOf f = sectionOf key (blocks ++ [f]) := by
  rw [withVariantOf_grouped hb hf rfl]
  unfold sectionOf
  rw [headD_concat hne]

theorem sectionOf_singleton {f : Fragment} (hf : f.isTyped = true) (key : Json) :
    (f.toSection key).withVariantOf f = sectionOf key [f] := by
  have hnone : ∀ g ∈ ([] : List Fragment), g.isTyped = true := by simp
  rw [withVariantOf_grouped hnone hf rfl, Fragment.toSection_eq hf]
  rfl

namespace Component

/-- A section that was just entered, or was there, is the one that is changed. -/
theorem modifySection_upsert (key : Json) (g : Section → Section) {new : Section}
    (hnew : new.key.same key = true) (ss : List Section) :
    modifySection.modify key g (upsert (fun s => s.key.same key) id new ss) =
      upsert (fun s => s.key.same key) g (g new) ss := by
  induction ss with
  | nil => simp [upsert, modifySection.modify, hnew]
  | cons s ss ih =>
    by_cases hs : s.key.same key
    · simp [upsert, modifySection.modify, hs]
    · simp [upsert, modifySection.modify, hs, ih]

/-- Entering the section and the variant of a block changes the section of its key, or adds
one. -/
theorem enterVariant_enterSection {f : Fragment} {key : Json}
    (hkey : f.key? .sectionKey = some key) (c : Component) :
    (c.enterSection f).enterVariant f = { c with
      sections := upsert (fun s => s.key.same key) (·.withVariantOf f)
        ((f.toSection key).withVariantOf f) c.sections } := by
  have hsection : c.enterSection f = { c with
      sections := upsert (fun s => s.key.same key) id (f.toSection key) c.sections } := by
    unfold enterSection section? addSection
    simp only [hkey, upsert_id, List.find?_isSome]
    split
    · next h => simp [h]
    · next h => simp [h]
  rw [hsection]
  unfold enterVariant
  simp only [hkey]
  cases hv : f.key? .variation with
  | none =>
    simp only [Section.withVariantOf, hv]
    rfl
  | some variant =>
    simp only [Section.withVariantOf, hv, modifySection]
    rw [modifySection_upsert key _ (Json.same_refl key)]

/-- A block without a section has nothing to enter below sections. -/
theorem enterVariant_enterSection_of_none {f : Fragment} (hkey : f.key? .sectionKey = none)
    (c : Component) : (c.enterSection f).enterVariant f = c := by
  unfold enterSection enterVariant
  simp only [hkey]

/-- Entering the section of one more block gives the sections of the longer list. -/
theorem enterSections_grouped {c : Component} {blocks : List Fragment} {f : Fragment}
    (hb : ∀ g ∈ blocks, g.isTyped = true) (hf : f.isTyped = true)
    (hc : c.sections = grouped (Fragment.key? · .sectionKey) sectionOf blocks) :
    (c.enterSection f).enterVariant f = { c with
      sections := grouped (Fragment.key? · .sectionKey) sectionOf (blocks ++ [f]) } := by
  cases hs : f.key? .sectionKey with
  | none =>
    rw [grouped_concat_of_none (Fragment.key? · .sectionKey) hs, ← hc,
      enterVariant_enterSection_of_none hs]
  | some key =>
    obtain ⟨hkey, -⟩ := Fragment.isText_key? hf (by simp) hs
    rw [enterVariant_enterSection hs, hc]
    congr 1
    symm
    apply grouped_concat (Fragment.key? · .sectionKey) hs
    · exact same_eq_decide_of_mem
        (fun g hg _ hgl => (Fragment.isText_key? (hb g hg) (by simp) hgl).1) hkey
    · intro hmem
      exact sectionOf_concat (filter_key_ne_nil hmem)
        (fun g hg => hb g (List.mem_filter.mp hg).1) hf key
    · exact sectionOf_singleton hf key

/-! ### Property tables -/

/-- No two tables are of the same library. -/
def DistinctTables (ts : List PropertyTable) : Prop :=
  ts.Pairwise fun s t => s.library.same t.library = false

/-- Adding a property to the table of its library, unless one of its name is there. -/
def addToTable (p : Property) (t : PropertyTable) : PropertyTable :=
  { t with props := upsert (fun q => q.name.same p.name) id p t.props }

/-- A property is added to the table of its library, or starts one. -/
theorem addProp_tables (c : Component) (p : Property) (hc : DistinctTables c.tables) :
    c.addProp p = { c with
      tables := upsert (fun t => t.library.same p.library) (addToTable p) ⟨p.library, [p]⟩
        c.tables } := by
  have htables : ∀ ts : List PropertyTable, DistinctTables ts →
      upsert (fun t => t.library.same p.library) (addToTable p) ⟨p.library, [p]⟩ ts =
        if ts.any fun t => t.library.same p.library && t.props.any fun q => q.name.same p.name
        then ts else insertProp p ts := by
    intro ts hts
    induction ts with
    | nil => rfl
    | cons t ts ih =>
      obtain ⟨ht, hrest⟩ := List.pairwise_cons.mp hts
      rw [upsert, insertProp, ih hrest]
      by_cases hlib : t.library.same p.library
      · -- The other tables are of other libraries.
        have hothers : (ts.any fun s =>
            s.library.same p.library && s.props.any fun q => q.name.same p.name) = false := by
          rw [List.any_eq_false]
          intro s hs hsame
          rw [Bool.and_eq_true] at hsame
          have hts := Json.same_trans hlib (Json.same_comm s.library p.library ▸ hsame.1)
          rw [ht s hs] at hts
          exact Bool.false_ne_true hts
        by_cases hname : t.props.any fun q => q.name.same p.name
        · simp [hlib, hname, addToTable, upsert_id]
        · simp [hlib, hname, hothers, addToTable, upsert_id]
      · by_cases hany : ts.any fun s =>
            s.library.same p.library && s.props.any fun q => q.name.same p.name
        · simp [hlib, hany]
        · simp [hlib, hany]
  rw [htables c.tables hc]
  unfold addProp lacks
  simp only [Bool.not_eq_true']
  split
  · next h => simp [h]
  · next h => simp at h; simp [h]

end Component

theorem isText_tableKey? {p : Property} (hp : p.isPlain = true) {k : Json}
    (hk : p.tableKey? = some k) : k.isText = true := by
  unfold Property.tableKey? at hk
  split at hk
  · obtain rfl := Option.some.inj hk
    exact Property.isPlain_library hp
  · simp at hk

theorem distinctTables_tablesOf {ps : List Property} (hps : ∀ p ∈ ps, p.isPlain = true) :
    Component.DistinctTables (tablesOf ps) := by
  unfold Component.DistinctTables tablesOf
  rw [grouped_eq_map, List.pairwise_map]
  have hnodup := nodup_eraseDups (ps.filterMap Property.tableKey?)
  apply List.Pairwise.imp_of_mem _ hnodup
  intro k l hk hl hkl
  have htext : ∀ m ∈ (ps.filterMap Property.tableKey?).eraseDups, m.isText = true := by
    intro m hm
    obtain ⟨p, hp, hpm⟩ := List.mem_filterMap.mp (List.mem_eraseDups.mp hm)
    exact isText_tableKey? (hps p hp) hpm
  show k.same l = false
  rw [Json.same_of_isText (htext k hk) (htext l hl)]
  simpa using hkl

/-- The name of the first property of a group. -/
theorem name_headD_filter {ps : List Property} {name : Json}
    (h : name ∈ ps.filterMap fun q => some q.name) :
    ((ps.filter fun q => some q.name = some name).headD default).name = name := by
  obtain ⟨q, qs, hq⟩ := List.exists_cons_of_ne_nil (filter_key_ne_nil h)
  have hmem : q ∈ ps.filter fun q => some q.name = some name := by
    rw [hq]
    exact List.mem_cons_self
  rw [hq]
  simpa using (List.mem_filter.mp hmem).2

/-- One more property is one more row, unless one of its name is there. -/
theorem tableOf_concat {library : Json} {ps : List Property} {p : Property}
    (hps : ∀ q ∈ ps, q.isPlain = true) (hp : p.isPlain = true) :
    Component.addToTable p (tableOf library ps) = tableOf library (ps ++ [p]) := by
  unfold Component.addToTable tableOf
  dsimp only
  congr 1
  symm
  apply grouped_concat (fun q : Property => some q.name) (k := p.name) rfl
  · intro name hname
    rw [name_headD_filter hname]
    refine same_eq_decide_of_mem ?_ (Property.isPlain_name hp) name hname
    rintro q hq _ ⟨⟩
    exact Property.isPlain_name (hps q hq)
  · intro hmem
    rw [headD_concat (filter_key_ne_nil hmem), id]
  · rfl

/-- Adding a property with a name gives the tables of the longer list. -/
theorem addProp_tablesOf {c : Component} {ps : List Property} {p : Property}
    (hps : ∀ q ∈ ps, q.isPlain = true) (hp : p.isPlain = true)
    (hc : c.tables = tablesOf ps) :
    (if p.name.isTruthy then c.addProp p else c) = { c with tables := tablesOf (ps ++ [p]) } := by
  by_cases hname : p.name.isTruthy
  · have hkey : p.tableKey? = some p.library := by
      unfold Property.tableKey?
      rw [if_pos hname]
    rw [if_pos hname, Component.addProp_tables c p (hc ▸ distinctTables_tablesOf hps), hc]
    congr 1
    symm
    apply grouped_concat Property.tableKey? hkey
    · exact same_eq_decide_of_mem (fun q hq _ hql => isText_tableKey? (hps q hq) hql)
        (Property.isPlain_library hp)
    · intro _
      exact tableOf_concat (fun q hq => hps q (List.mem_filter.mp hq).1) hp
    · unfold tableOf
      rw [grouped_singleton (fun q : Property => some q.name) (k := p.name) rfl]
      rfl
  · have hkey : p.tableKey? = none := by
      unfold Property.tableKey?
      rw [if_neg hname]
    rw [if_neg hname, tablesOf, grouped_concat_of_none Property.tableKey? hkey, ← tablesOf, ← hc]

/-- Adding properties one after the other gives the tables of all of them. -/
theorem addProps_tablesOf {c : Component} {ps qs : List Property}
    (hps : ∀ p ∈ ps, p.isPlain = true) (hqs : ∀ q ∈ qs, q.isPlain = true)
    (hc : c.tables = tablesOf ps) :
    c.addProps qs = { c with tables := tablesOf (ps ++ qs) } := by
  induction qs generalizing c ps with
  | nil =>
    rw [List.append_nil, ← hc]
    rfl
  | cons q qs ih =>
    obtain ⟨hq, hrest⟩ := List.forall_mem_cons.mp hqs
    show Component.addProps (if q.name.isTruthy then c.addProp q else c) qs = _
    have hps' : ∀ p ∈ ps ++ [q], p.isPlain = true :=
      List.forall_mem_append.mpr ⟨hps, List.forall_mem_singleton.mpr hq⟩
    rw [addProp_tablesOf hps hq hc, ih hps' hrest rfl, List.append_assoc, List.singleton_append]

/-! ### Components -/

/-- The place and the block of a filing are of the usual types. -/
def Filing.isTyped (x : Filing) : Bool :=
  x.category.isText && x.component.isText && x.block.isTyped

theorem Filing.isTyped_iff {x : Filing} : x.isTyped = true ↔
    x.category.isText = true ∧ x.component.isText = true ∧ x.block.isTyped = true := by
  simp [Filing.isTyped, and_assoc]

theorem declaringBlocks_concat {x : Filing} (hd : x.declares = true) (fs : List Filing) :
    declaringBlocks (fs ++ [x]) = declaringBlocks fs ++ [x.block] := by
  simp [declaringBlocks, hd]

theorem propsOf_concat (fs : List Filing) (x : Filing) :
    propsOf (fs ++ [x]) = propsOf fs ++ x.block.props := by
  simp [propsOf]

theorem isTyped_of_mem_declaringBlocks {fs : List Filing} (hfs : ∀ x ∈ fs, x.isTyped = true) :
    ∀ f ∈ declaringBlocks fs, f.isTyped = true := by
  intro f hf
  obtain ⟨x, hx, rfl⟩ := List.mem_map.mp hf
  exact (Filing.isTyped_iff.mp (hfs x (List.mem_filter.mp hx).1)).2.2

theorem isPlain_of_mem_propsOf {fs : List Filing} (hfs : ∀ x ∈ fs, x.isTyped = true) :
    ∀ p ∈ propsOf fs, p.isPlain = true := by
  intro p hp
  obtain ⟨x, hx, hpx⟩ := List.mem_flatMap.mp hp
  exact Fragment.isPlain_of_mem_props (Filing.isTyped_iff.mp (hfs x hx)).2.2 hpx

/-- The last block without a section gives a component its labels. -/
theorem namingBlock_concat {blocks : List Fragment} (hne : blocks ≠ []) (f : Fragment) :
    namingBlock (blocks ++ [f]) =
      if f.key? .sectionKey = none then f else namingBlock blocks := by
  unfold namingBlock
  rw [List.filter_append, headD_concat hne]
  by_cases hf : f.key? .sectionKey = none
  · simp [hf]
  · simp [hf]

namespace Component

variable {c : Component} {fs : List Filing} {x : Filing}

/-- Entering what a declaring block documents gives the sections and the tables of the longer
list. -/
theorem enter_declaring (hfs : ∀ y ∈ fs, y.isTyped = true) (hx : x.isTyped = true)
    (hd : x.declares = true)
    (hs : c.sections = grouped (Fragment.key? · .sectionKey) sectionOf (declaringBlocks fs))
    (ht : c.tables = tablesOf (propsOf fs)) :
    c.enter x.block = { c with
      sections := grouped (Fragment.key? · .sectionKey) sectionOf (declaringBlocks (fs ++ [x]))
      tables := tablesOf (propsOf (fs ++ [x])) } := by
  obtain ⟨-, -, hblock⟩ := Filing.isTyped_iff.mp hx
  unfold enter
  rw [enterSections_grouped (isTyped_of_mem_declaringBlocks hfs) hblock hs,
    declaringBlocks_concat hd, propsOf_concat]
  exact addProps_tablesOf (isPlain_of_mem_propsOf hfs)
    (fun q hq => Fragment.isPlain_of_mem_props hblock hq) ht

/-- A declaring block entered into a component that has been declared before. -/
theorem enter_componentOf (hfs : ∀ y ∈ fs, y.isTyped = true) (hx : x.isTyped = true)
    (hd : x.declares = true) (hne : declaringBlocks fs ≠ []) (key : Json) :
    ((componentOf key fs).redeclare x.block).enter x.block = componentOf key (fs ++ [x]) := by
  have hname := namingBlock_concat hne x.block
  rw [← declaringBlocks_concat hd] at hname
  unfold redeclare
  split
  · next hs =>
    rw [enter_declaring hfs hx hd rfl rfl]
    rw [if_neg (Option.isSome_iff_ne_none.mp hs)] at hname
    simp only [componentOf, hname]
  · next hs =>
    rw [enter_declaring hfs hx hd rfl rfl]
    rw [if_pos (by simpa using hs)] at hname
    simp only [componentOf, hname]

/-- A declaring block that creates its component. -/
theorem enter_ofFragment (hx : x.isTyped = true) (hd : x.declares = true) (key : Json) :
    ((ofFragment key x.block).redeclare x.block).enter x.block = componentOf key [x] := by
  have hnone : ∀ y ∈ ([] : List Filing), y.isTyped = true := by simp
  have hredeclare : (ofFragment key x.block).redeclare x.block = ofFragment key x.block := by
    unfold redeclare
    split <;> rfl
  have hname : namingBlock (declaringBlocks [x]) = x.block := by
    by_cases hs : x.block.key? .sectionKey = none
    · simp [namingBlock, declaringBlocks, hd, hs]
    · simp [namingBlock, declaringBlocks, hd, hs]
  rw [hredeclare, enter_declaring hnone hx hd rfl rfl]
  simp only [componentOf, hname, ofFragment, List.nil_append]

/-- A block with only properties. -/
theorem addProps_componentOf (hfs : ∀ y ∈ fs, y.isTyped = true) (hx : x.isTyped = true)
    (hd : x.declares = false) (key : Json) :
    (componentOf key fs).addProps x.block.props = componentOf key (fs ++ [x]) := by
  obtain ⟨-, -, hblock⟩ := Filing.isTyped_iff.mp hx
  have hblocks : declaringBlocks (fs ++ [x]) = declaringBlocks fs := by
    simp [declaringBlocks, hd]
  rw [addProps_tablesOf (isPlain_of_mem_propsOf hfs)
    (fun q hq => Fragment.isPlain_of_mem_props hblock hq) rfl]
  simp only [componentOf, hblocks, propsOf_concat]

end Component

end StyleGuide

import StyleGuide.Proofs.Navigation.Blanking
import StyleGuide.Proofs.Navigation.Precedence

/-!
# Documented examples

What the catalog has on a page comes from the first fragment that documents it (`firstOn?`): until
then there is nothing, that fragment enters its section, and later ones only add variants
(`Builder.exists_sectionOn?_run`). The examples of a documented section win over those of the
template, so they are what a document shows (`Navigation.exists_variations_withDocs`), and a
non-empty one keeps its page in the document when it is filtered
(`Compilation.documented_examples`).
-/

namespace StyleGuide

/-! ### Who documents a page -/

/-- The fragments of a list that declare a component, each with its place. -/
def declarationsFrom (default file category : Json) (fs : List Fragment) :
    List ((Json × Json) × Fragment) :=
  (targetsFrom default file category fs).zip (fs.filter fun f => (f.key? .component).isSome)

/-- A fragment in its place documents a page. -/
def documents (p : Page) (d : (Json × Json) × Fragment) : Bool :=
  samePlace d.1 (p.category.toJson, p.component) && (d.2.key? .sectionKey).any (·.same p.key)

def firstOn? (default : Json) (fs : List Fragment) (p : Page) : Option Fragment :=
  ((declarationsFrom default .null .null fs).find? (documents p)).map (·.2)

/-- A fragment offers an example of a flavour: the first tag of the flavour that gives anything
gives it. -/
def Fragment.Offers (f : Fragment) (kind : ExampleKind) (e : Json) : Prop :=
  ∃ before tag after, kind.sources = before ++ tag :: after ∧ f.given? tag = some e ∧
    ∀ preferred ∈ before, f.given? preferred = none

/-- What a fragment offers is an example of its section. -/
theorem Fragment.mem_examples_toSection {f : Fragment} {kind : ExampleKind} {e : Json}
    (h : f.Offers kind e) (key : Json) : (kind, e) ∈ (f.toSection key).examples := by
  have hexample : f.example? kind = some e := List.findSome?_eq_some_iff.mpr h
  have hall : kind ∈ ExampleKind.all := by cases kind <;> decide
  exact List.mem_filterMap.mpr ⟨kind, hall, by rw [hexample]; rfl⟩

/-! ### The section of a page, step by step -/

/-- A component that a fragment declares has the section of the fragment, if it has one, and
otherwise the sections that it had. -/
theorem Component.section?_declaredBy (old : Option Component) (component : Json) (f : Fragment)
    (l : Json) :
    (declaredBy old component f).section? l =
      match f.key? .sectionKey with
      | some key =>
        if key.same l then some (((old.bind (·.section? l)).getD (f.toSection key)).withVariantOf f)
        else old.bind (·.section? l)
      | none => old.bind (·.section? l) := by
  have hold : ((old.getD (.ofFragment component f)).redeclare f).sections.find?
      (fun s => s.key.same l) = old.bind (·.section? l) := by
    rw [redeclare]
    cases old <;> split <;> rfl
  rw [declaredBy, section?, enter, sections_addProps]
  cases hkey : f.key? .sectionKey with
  | none =>
    rw [enterVariant_enterSection_of_none hkey]
    exact hold
  | some key =>
    rw [enterVariant_enterSection hkey]
    refine (find?_upsert_key Section.key (fun s => s.key_withVariantOf f) key l rfl _).trans ?_
    rw [hold]

namespace Builder

variable {default : Json} {b : Builder} {f : Fragment} {fs : List Fragment} {p : Page}

theorem declarationsFrom_cons (default : Json) (b : Builder) (f : Fragment) (fs : List Fragment) :
    declarationsFrom default b.file b.category (f :: fs) =
      ((f.key? .component).map fun k => (((b.atFile f.file).categoryFor default f, k), f)).toList ++
        declarationsFrom default (b.step default f).file (b.step default f).category fs := by
  rw [declarationsFrom, targetsFrom_cons, List.filter_cons]
  cases f.key? .component <;> rfl

/-- A fragment that documents a page enters its section there, unless there is one. -/
theorem sectionOn?_step_of_documents {component key : Json}
    (hcomponent : f.key? .component = some component) (hkey : f.key? .sectionKey = some key)
    (h : documents p (((b.atFile f.file).categoryFor default f, component), f) = true) :
    (b.step default f).catalog.sectionOn? p =
      some (((b.catalog.sectionOn? p).getD (f.toSection key)).withVariantOf f) := by
  rw [documents, Bool.and_eq_true, hkey] at h
  obtain ⟨hplace, hsame⟩ := h
  rw [Catalog.sectionOn?, component?_step, place?, hcomponent, Option.any_some,
    if_pos hplace, change, hcomponent, Option.bind_some, Component.section?_declaredBy, hkey]
  exact if_pos hsame

/-- A fragment that does not document a page leaves the section there as it is. -/
theorem sectionOn?_step_of_not_documents
    (h : ∀ component, f.key? .component = some component →
      documents p (((b.atFile f.file).categoryFor default f, component), f) = false) :
    (b.step default f).catalog.sectionOn? p = b.catalog.sectionOn? p := by
  rw [Catalog.sectionOn?, component?_step]
  split
  · next hplace =>
    rw [change]
    cases hcomponent : f.key? .component with
    | none =>
      -- Properties are no sections.
      show ((b.catalog.component? _ _).map (·.addProps f.props)).bind (·.section? p.key) = _
      rw [Catalog.sectionOn?]
      cases b.catalog.component? p.category.toJson p.component with
      | none => rfl
      | some c => exact congrArg (List.find? _) (c.sections_addProps f.props)
    | some component =>
      have hdocuments := h component hcomponent
      rw [place?, hcomponent, Option.any_some] at hplace
      rw [documents, hplace, Bool.true_and] at hdocuments
      show (Component.declaredBy _ component f).section? p.key = _
      rw [Component.section?_declaredBy]
      cases hkey : f.key? .sectionKey with
      | none => rfl
      | some key =>
        rw [hkey, Option.any_some] at hdocuments
        exact if_neg (by simp [hdocuments])
  · rfl

/-- **The first fragment that documents a page decides.** What is on the page after a run is the
section of that fragment; it may have got more variants. -/
theorem exists_sectionOn?_run (hnone : b.catalog.sectionOn? p = none) {d : (Json × Json) × Fragment}
    (hd : (declarationsFrom default b.file b.category fs).find? (documents p) = some d) :
    ∃ key s, (b.run default fs).catalog.sectionOn? p = some s ∧ (d.2.toSection key).Grows s := by
  induction fs generalizing b with
  | nil => cases hd
  | cons f fs ih =>
    rw [declarationsFrom_cons] at hd
    cases hcomponent : f.key? .component with
    | none =>
      rw [hcomponent] at hd
      refine ih ?_ hd
      rw [sectionOn?_step_of_not_documents (by simp [hcomponent])]
      exact hnone
    | some component =>
      rw [hcomponent] at hd
      by_cases hdocuments : documents p (((b.atFile f.file).categoryFor default f, component), f)
      · obtain rfl : _ = d := by simpa [hdocuments] using hd
        cases hkey : f.key? .sectionKey with
        | none => simp [documents, hkey] at hdocuments
        | some key =>
          -- Later fragments find the section there and add no more than variants.
          have hstep := sectionOn?_step_of_documents hcomponent hkey hdocuments
          rw [hnone] at hstep
          obtain ⟨s, hs, hgrows⟩ := (grows_run default (b.step default f) fs).sectionOn? hstep
          exact ⟨key, s, hs, (Section.grows_withVariantOf _ f).trans hgrows⟩
      · refine ih ?_ (by simpa [hdocuments] using hd)
        rw [sectionOn?_step_of_not_documents (by simpa [hcomponent] using hdocuments)]
        exact hnone

end Builder

/-- The section of a page grows from the first fragment that documents the page. -/
theorem Catalog.exists_sectionOn?_extend {default : Json} {fs : List Fragment} {p : Page}
    {f : Fragment} (h : firstOn? default fs p = some f) :
    ∃ key s, (Catalog.extend default {} fs).sectionOn? p = some s ∧ (f.toSection key).Grows s := by
  obtain ⟨d, hd, rfl⟩ := Option.map_eq_some_iff.mp h
  exact Builder.exists_sectionOn?_run (b := {}) rfl hd

theorem Catalog.isEmpty_eq_false_of_sectionOn? {t : Catalog} {p : Page} {d : Section}
    (h : t.sectionOn? p = some d) : t.isEmpty = false := by
  obtain ⟨k, hk, -⟩ := Option.bind_eq_some_iff.mp h
  obtain ⟨c, hc, hk⟩ := Option.bind_eq_some_iff.mp hk
  rw [Catalog.isEmpty, List.all_eq_false]
  refine ⟨c, List.mem_of_find?_eq_some hc, ?_⟩
  rw [List.isEmpty_iff]
  exact List.ne_nil_of_mem (List.mem_of_find?_eq_some hk)

/-! ### What a document shows -/

/-- Among different keys, every field is found by its own. -/
theorem Fields.get?_of_mem {fields : Fields} (hdistinct : Fields.Distinct fields) {key : Key}
    {v : Json} (h : (key, v) ∈ fields) : fields.get? key = some v := by
  induction fields with
  | nil => cases h
  | cons f rest ih =>
    obtain ⟨hf, hrest⟩ := List.pairwise_cons.mp hdistinct
    rw [Fields.get?_cons]
    rcases List.mem_cons.mp h with rfl | h
    · simp
    · rw [if_neg (by simp [hf key (List.mem_map_of_mem h)]), ih hrest h]

namespace Navigation

variable {t : Catalog} {template merged docs : Json} {p : Page}

/-- The examples of a documented section are shown, whatever the template has in their place. -/
theorem exists_variations_withDocs {d : Section} (hd : d.OneOfEach) {kind : ExampleKind} {e : Json}
    (he : (kind, e) ∈ d.examples) (s : Fields) :
    ∃ map : Fields, (withDocs (some d) s).get? "variations" = some (.obj map) ∧
      map.get? kind.word = some e.shown := by
  have hshown : Fields.get? (exampleFields d) kind.word = some e.shown :=
    Fields.get?_of_mem (distinct_exampleFields hd) (List.mem_map.mpr ⟨(kind, e), he, rfl⟩)
  refine ⟨_, get?_variations_withDocs d s, ?_⟩
  rw [Fields.get?_update_of_distinct (distinct_exampleFields hd), hshown]
  rfl

/-- A section with a non-empty documented example is shown. -/
theorem shows_withDocs_of_mem {d : Section} (hd : d.OneOfEach) {kind : ExampleKind} {e : Json}
    (he : (kind, e) ∈ d.examples) (hexample : isExample e.shown = true) (s : Fields) :
    Shows Filter.standard.kinds (withDocs (some d) s) := by
  rcases shows_or_blanks hd with hshows | hblanks
  · exact hshows
  · have hblank := hblanks.documented (kind, e) he
    rw [hexample] at hblank
    cases hblank

/-- Every section on a page of a document is one of the template, with what is documented on the
page. -/
theorem exists_eq_withDocs (htemplate : templateFault? template = none)
    (hmerge : merge t template = .ok merged) {f : Filter} (hfilter : filter f merged = .ok docs)
    {child s : Fields} (h : Places docs p child s) : ∃ s', s = withDocs (t.sectionOn? p) s' := by
  obtain ⟨ss, ⟨cs, c, hdocs, hc, hchild⟩, hcomponent, hs, hkey⟩ := h
  have hlists : ListsSection docs p.category (componentKey child) (.obj s) :=
    ⟨cs, c, hdocs, hc, child, ss, hchild, rfl, hs⟩
  have hmerged :=
    ((listsSection_filtered_iff (templateFault?_merged htemplate hmerge) hfilter).mp hlists).1
  obtain ⟨child', ss', s', -, hsame, -, rfl⟩ :=
    (listsSection_merged_iff htemplate hmerge).mp hmerged
  rw [← hsame] at hcomponent
  rw [Json.same_congr_left sectionKey_withDocs] at hkey
  exact ⟨s', by rw [sectionOn?_pageOf hcomponent hkey]⟩

end Navigation

namespace Compilation

open Navigation

variable {c : Compilation} {template docs : Json}

/-- **Documented examples reach the document.** If the first fragment that documents a page of the
template offers a non-empty example, then the document has the page, and the example is shown there
with its escaped form. -/
theorem documented_examples (hnavigation : c.navigation = some template)
    (hfilter : c.applyFilter = true)
    (haccepted : check template = .ok template) {fs : List Fragment} (h : c.compile fs = .ok docs)
    {p : Page} (hp : HasPage template p) {f : Fragment}
    (hfirst : firstOn? c.defaultCategory fs p = some f)
    {kind : ExampleKind} {source escaped : Json} (hoffers : f.Offers kind (.code source escaped))
    (hsource : source.isTruthy = true) :
    HasPage docs p ∧ ∀ child s, Places docs p child s → ∃ map : Fields,
      s.get? "variations" = some (.obj map) ∧
        map.get? kind.word = some (.obj [("example", source), ("escaped", escaped)]) := by
  have htemplate := check_eq_ok_iff.mp haccepted
  obtain ⟨t, ht, hdocs⟩ := bind_eq_ok_iff.mp h
  obtain rfl := Catalog.eq_extend_of_build ht
  obtain ⟨key, d, hd, hgrows⟩ := Catalog.exists_sectionOn?_extend hfirst
  have hone : d.OneOfEach := Catalog.oneOfEach_sectionOn? hd
  -- The section may have got variants since, but its examples are those of the fragment.
  have hmem : (kind, .code source escaped) ∈ d.examples := by
    rw [hgrows.fields]
    exact f.mem_examples_toSection hoffers key
  have hnonempty := Catalog.isEmpty_eq_false_of_sectionOn? hd
  constructor
  · obtain ⟨child, s, hplaces⟩ := hp
    rw [hasPage_render_iff hnavigation htemplate hnonempty hdocs, hd]
    exact ⟨child, s, hplaces, .inr (.inr (shows_withDocs_of_mem hone hmem hsource s))⟩
  · intro child s hplaces
    rw [render, hnonempty, if_neg Bool.false_ne_true, hnavigation] at hdocs
    obtain ⟨merged, hmerge, hdocs⟩ := bind_eq_ok_iff.mp hdocs
    rw [hfilter, if_pos rfl] at hdocs
    obtain ⟨s', rfl⟩ := exists_eq_withDocs htemplate hmerge hdocs hplaces
    rw [hd]
    exact exists_variations_withDocs hone hmem s'

/-- The tag `html` is preferred to `markup` and wins over the template, and a later file changes
nothing. -/
theorem documented_examples_button :
    let template : Json := .obj [("components", .obj [("children", .arr
      [.obj [("component", "button"), ("sections", .arr [.obj [("section", "default"),
        ("variations", .obj [("core", .obj [("example", "old")]), ("vue", "kept")])]])]])])]
    let c : Compilation := { navigation := some template }
    let first : Fragment := { file := "a.js", start := .int 1, stop := .int 6, tags :=
      [(.component, [.data "button"]), (.sectionKey, [.data "default"]),
       (.markup, [.data (.code "<i>" "&lt;i&gt;")]), (.html, [.data (.code "<b>" "&lt;b&gt;")])] }
    let second : Fragment := { file := "b.js", start := .int 1, stop := .int 4, tags :=
      [(.component, [.data "button"]), (.sectionKey, [.data "default"]),
       (.html, [.data (.code "<p>" "&lt;p&gt;")])] }
    let p : Page := ⟨"components", "button", "default"⟩
    ∃ docs, check template = .ok template ∧ c.compile [first, second] = .ok docs ∧
      HasPage template p ∧ firstOn? c.defaultCategory [first, second] p = some first ∧
      first.Offers .core (.code "<b>" "&lt;b&gt;") ∧
      HasPage docs p ∧ ∀ child s, Places docs p child s → ∃ map : Fields,
        s.get? "variations" = some (.obj map) ∧
          map.get? "core" = some (.obj [("example", "<b>"), ("escaped", "&lt;b&gt;")]) := by
  intro template c first second p
  have haccepted : check template = .ok template := rfl
  have hpage : HasPage template p :=
    ⟨_, _, _, ⟨_, _, rfl, List.mem_cons_self, _, rfl, List.mem_cons_self, rfl⟩, rfl,
      List.mem_cons_self, rfl⟩
  have hfirst : firstOn? c.defaultCategory [first, second] p = some first := rfl
  have hoffers : first.Offers .core (.code "<b>" "&lt;b&gt;") :=
    ⟨[], .html, [.markup], rfl, rfl, fun _ h => absurd h List.not_mem_nil⟩
  have hok : (c.compile [first, second]).isOk = true := by decide +kernel
  obtain ⟨docs, hdocs⟩ := exists_of_isOk hok
  exact ⟨docs, haccepted, hdocs, hpage, hfirst, hoffers,
    documented_examples rfl rfl haccepted hdocs hpage hfirst hoffers rfl⟩

end Compilation

end StyleGuide

import StyleGuide.Catalog.Fold

/-!
# Fragments with the usual values

A caller may put any value behind a tag. The usual handlers give texts, code examples, entries of
tables and properties, each kind of tag its own. A fragment with such values can always be entered
into a catalog: what it is filed under are texts, and texts are the same key only if they are equal.
-/

namespace StyleGuide

/-! ### The types of values -/

/-- The value is a text. -/
def Json.isText : Json → Bool
  | .str _ => true
  | _ => false

/-- The value is an object whose keys are names and whose values are texts. -/
def Json.isEntry : Json → Bool
  | .obj fields => fields.all fun f => f.1.toJson.isText && f.2.isText
  | _ => false

def Json.isExample : Json → Bool
  | .code source escaped => source.isText && escaped.isText
  | _ => false

/-- The parts of a property are texts, but for the default, which may be missing, and the mark
that it is required. -/
def Property.isPlain (p : Property) : Bool :=
  p.name.isText && p.type.isText && p.description.isText && (p.default.isText || p.default.isNull)
    && (p.required = .bool true || p.required = .bool false) && p.library.isText

/-- The value is of the type of those that the usual handler of the kind gives. -/
def TagValue.isOf : TagKind → TagValue → Bool
  | .category, .data v | .component, .data v | .name, .data v | .description, .data v
  | .sectionKey, .data v | .variation, .data v | .hidecode, .data v => v.isText
  | .html, .data v | .markup, .data v | .js, .data v | .react, .data v | .ts, .data v
  | .angular, .data v | .angularjs, .data v | .scss, .data v => v.isExample
  | .state, .data v | .param, .data v | .scssVariable, .data v => v.isEntry
  | .prop, .prop p => p.isPlain
  | _, _ => false

/-- The file is a text, and all values are of the types that the usual handlers give. -/
def Fragment.isTyped (f : Fragment) : Bool :=
  f.file.isText && f.tags.all fun t => t.2.all (TagValue.isOf t.1)

/-! ### Texts as keys -/

namespace Json

variable {v w : Json}

theorem exists_str_of_isText (h : v.isText = true) : ∃ s, v = .str s := by
  cases v with
  | str s => exact ⟨s, rfl⟩
  | _ => simp [isText] at h

/-- Texts are the same key only if they are equal. -/
theorem same_of_isText (hv : v.isText = true) (hw : w.isText = true) :
    v.same w = decide (v = w) := by
  obtain ⟨s, rfl⟩ := exists_str_of_isText hv
  obtain ⟨t, rfl⟩ := exists_str_of_isText hw
  simp

theorem isKey_of_isText (h : v.isText = true) : v.isKey = true := by
  obtain ⟨s, rfl⟩ := exists_str_of_isText h
  rfl

end Json

/-! ### What typed fragments have -/

theorem Property.isPlain_name {p : Property} (h : p.isPlain = true) : p.name.isText = true := by
  simp only [isPlain, Bool.and_eq_true] at h
  exact h.1.1.1.1.1

theorem Property.isPlain_library {p : Property} (h : p.isPlain = true) :
    p.library.isText = true := by
  simp only [isPlain, Bool.and_eq_true] at h
  exact h.2

namespace Fragment

variable {f : Fragment} {kind : TagKind}

theorem isText_file (hf : f.isTyped = true) : f.file.isText = true := by
  simp only [isTyped, Bool.and_eq_true] at hf
  exact hf.1

/-- The values of a kind are of the type of the kind. -/
theorem isOf_of_mem_all (hf : f.isTyped = true) {v : TagValue} (hv : v ∈ f.all kind) :
    v.isOf kind = true := by
  simp only [isTyped, Bool.and_eq_true, List.all_eq_true] at hf
  unfold all at hv
  cases hfind : f.tags.find? (fun t => t.1 = kind) with
  | none => simp [hfind] at hv
  | some t =>
    have hkind : t.1 = kind := by simpa using List.find?_some hfind
    rw [← hkind]
    exact hf.2 t (List.mem_of_find?_eq_some hfind) v (by simpa [hfind] using hv)

/-- A text tag that counts gives a text that is not empty. -/
theorem isText_key? (hf : f.isTyped = true)
    (hkind : kind ∈ [.category, .component, .sectionKey, .variation]) {k : Json}
    (hk : f.key? kind = some k) : k.isText = true ∧ k.isTruthy = true := by
  obtain ⟨hdatum, htruthy⟩ := Option.filter_eq_some_iff.mp hk
  refine ⟨?_, htruthy⟩
  obtain ⟨v, hv, rfl⟩ := Option.map_eq_some_iff.mp hdatum
  have hof := isOf_of_mem_all hf (List.mem_of_mem_head? hv)
  cases v with
  | data w =>
    simp only [List.mem_cons, List.not_mem_nil, or_false] at hkind
    rcases hkind with rfl | rfl | rfl | rfl <;> exact hof
  | prop p =>
    simp only [List.mem_cons, List.not_mem_nil, or_false] at hkind
    rcases hkind with rfl | rfl | rfl | rfl <;> simp [TagValue.isOf] at hof

/-- What a tag for examples holds is an example. -/
theorem isExample_of_mem_entries (hf : f.isTyped = true) {flavour : ExampleKind}
    (hkind : kind ∈ flavour.sources) {e : Json} (he : e ∈ f.entries kind) : e.isExample = true := by
  obtain ⟨v, hv, rfl⟩ := List.mem_map.mp he
  have hof := isOf_of_mem_all hf hv
  have hexample : v.isOf kind = true → v.plain.isExample = true := by
    cases flavour <;> simp only [ExampleKind.sources, List.mem_cons, List.not_mem_nil,
      or_false] at hkind
    case core => rcases hkind with rfl | rfl <;> cases v <;> exact id
    case react => rcases hkind with rfl | rfl <;> cases v <;> exact id
    case angular => rcases hkind with rfl | rfl <;> cases v <;> exact id
    case angularjs => rcases hkind with rfl; cases v <;> exact id
    case scss => rcases hkind with rfl; cases v <;> exact id
  exact hexample hof

/-- A tag of an example has an example, not null. -/
theorem given?_eq_datum? (hf : f.isTyped = true) {flavour : ExampleKind}
    (hkind : kind ∈ flavour.sources) : f.given? kind = f.datum? kind := by
  unfold given?
  cases hd : f.datum? kind with
  | none => rfl
  | some w =>
    obtain ⟨v, hv, rfl⟩ := Option.map_eq_some_iff.mp hd
    have hexample := isExample_of_mem_entries hf hkind
      (List.mem_map_of_mem (List.mem_of_mem_head? hv))
    have hnull : v.plain.isNull = false := by
      cases hplain : v.plain with
      | null => simp [hplain, Json.isExample] at hexample
      | _ => rfl
    simp [hnull]

theorem isPlain_of_mem_props (hf : f.isTyped = true) {p : Property} (hp : p ∈ f.props) :
    p.isPlain = true := by
  obtain ⟨v, hv, hvp⟩ := List.mem_filterMap.mp hp
  have hof := isOf_of_mem_all hf hv
  cases v with
  | data w => simp [TagValue.prop?] at hvp
  | prop q =>
    obtain rfl : q = p := by simpa [TagValue.prop?] using hvp
    exact hof

end Fragment

end StyleGuide

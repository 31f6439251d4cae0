import StyleGuide.Place
import StyleGuide.Tag.Value

/-!
# Fragments

The tags of one comment block, grouped by kind. Kinds stand in the order in which they first
occur, and each has its values in the order of the source.
-/

namespace StyleGuide

/-- The tags of one comment block, and where it stands. -/
structure Fragment extends Place where
  tags : List (TagKind × List TagValue) := []
  deriving Inhabited

namespace Fragment

def insert (kind : TagKind) (value : TagValue) :
    List (TagKind × List TagValue) → List (TagKind × List TagValue)
  | [] => [(kind, [value])]
  | (k, vs) :: rest => if k = kind then (k, vs ++ [value]) :: rest
    else (k, vs) :: insert kind value rest

def add (f : Fragment) (kind : TagKind) (value : TagValue) : Fragment :=
  { f with tags := insert kind value f.tags }

def all (f : Fragment) (kind : TagKind) : List TagValue :=
  ((f.tags.find? fun t => t.1 = kind).map (·.2)).getD []

/-- A value is added behind the others of its kind; the other kinds stay as they are. -/
theorem all_add (f : Fragment) (kind other : TagKind) (value : TagValue) :
    (f.add kind value).all other =
      if other = kind then f.all other ++ [value] else f.all other := by
  obtain ⟨place, tags⟩ := f
  simp only [add, all]
  induction tags with
  | nil =>
    by_cases h : other = kind
    · simp [insert, h]
    · simp [insert, h, Ne.symm h]
  | cons t rest ih =>
    obtain ⟨k, vs⟩ := t
    rw [insert]
    by_cases hk : k = kind
    · by_cases h : other = kind
      · simp [hk, h]
      · simp [hk, h, Ne.symm h]
    · rw [if_neg hk]
      by_cases hn : k = other
      · have : other ≠ kind := fun h => hk (hn.trans h)
        simp [hn, this]
      · simp only [List.find?_cons, hn, decide_false]
        exact ih

def first? (f : Fragment) (kind : TagKind) : Option TagValue := (f.all kind).head?

def contains (f : Fragment) (kind : TagKind) : Bool := f.tags.any fun t => t.1 = kind

def isEmpty (f : Fragment) : Bool := f.tags.isEmpty

def entries (f : Fragment) (kind : TagKind) : List Json := (f.all kind).map TagValue.plain

def datum? (f : Fragment) (kind : TagKind) : Option Json := (f.first? kind).map TagValue.plain

/-- The first value of a kind, or the empty text if there is none. -/
def label (f : Fragment) (kind : TagKind) : Json := (f.datum? kind).getD ""

/-- The first value of a kind, if it counts as "yes". -/
def key? (f : Fragment) (kind : TagKind) : Option Json :=
  (f.datum? kind).filter (·.isTruthy)

/-- The first value of a kind, unless it is null. -/
def given? (f : Fragment) (kind : TagKind) : Option Json :=
  (f.datum? kind).filter (!·.isNull)

def props (f : Fragment) : List Property := (f.all .prop).filterMap TagValue.prop?

/-- The example of a flavour: that of its first source that has one. -/
def example? (f : Fragment) (kind : ExampleKind) : Option Json :=
  kind.sources.findSome? f.given?

/-- The tags in a document: by kind, every kind with the list of its values. -/
def toJson (f : Fragment) : Json :=
  .obj (f.tags.map fun (kind, values) => (kind.word, .arr (values.map TagValue.toJson)))

end Fragment

end StyleGuide

import StyleGuide.Double.Basic

/-!
# JSON values

Navigation templates and finished documentation are JSON documents. The order of an object's
fields is the order of pages, so an object is a list of fields; `Json.WellFormed` says that
no two fields of it have the same key, and `Fields.set` keeps it so.

The text of a document can give an object only names as keys. Documentation may also be filed
under numbers, truth values and null; numbers of the same value are the same key. Code
examples are values of their own until they are shown (`Json.shown`), and a document that
still has one cannot be written (`Json.isWritable`).
-/

namespace StyleGuide

/-! ### Keys -/

inductive Key where
  | name (s : String)
  | null
  | bool (b : Bool)
  | int (n : Int)
  | double (x : Double)
  | code (source escaped : Key)
  deriving DecidableEq, Inhabited, Repr

instance : Coe String Key := ⟨.name⟩

namespace Key

/-- A key with every number in its plainest form: the truth values are one and zero, and a
double without a fraction is a whole number. -/
def canonical : Key → Key
  | .bool b => .int (if b then 1 else 0)
  | .double x => match x.toInt? with
    | some n => .int n
    | none => .double x
  | .code source escaped => .code source.canonical escaped.canonical
  | k => k

def same (k l : Key) : Bool := k.canonical = l.canonical

@[simp] theorem same_refl (k : Key) : k.same k = true := by simp [same]

theorem same_comm (k l : Key) : k.same l = l.same k := by simp [same, eq_comm]

/-- Two keys that are the same as a third one are the same. -/
theorem same_trans {k l m : Key} (h : k.same l = true) (h' : l.same m = true) :
    k.same m = true := by
  simp only [same, decide_eq_true_eq] at h h' ⊢
  rw [h, h']

/-- Names are the same key only if they are the same text. -/
@[simp] theorem same_name (a b : String) : (Key.name a).same (.name b) = decide (a = b) := by
  simp [same, canonical]

end Key

/-! ### Values -/

/-- A JSON value, or a code example: as it is and with its angle brackets escaped for display.
Whole numbers are exact, all others are doubles. -/
inductive Json where
  | null
  | bool (b : Bool)
  | int (n : Int)
  | double (x : Double)
  | str (s : String)
  | arr (items : List Json)
  | obj (fields : List (Key × Json))
  | code (source escaped : Json)
  deriving Inhabited

instance : Coe String Json := ⟨.str⟩

abbrev Fields := List (Key × Json)

namespace Fields

def get? (fields : Fields) (key : Key) : Option Json :=
  (fields.find? fun f => f.1.same key).map (·.2)

def getD (fields : Fields) (key : Key) (default : Json) : Json :=
  (get? fields key).getD default

def has (fields : Fields) (key : Key) : Bool := fields.any fun f => f.1.same key

def keys (fields : Fields) : List Key := fields.map (·.1)

/-- Give a field a value: in its place if it is there, else at the end. -/
def set : Fields → Key → Json → Fields
  | [], key, value => [(key, value)]
  | (k, v) :: rest, key, value =>
    if k.same key then (k, value) :: rest else (k, v) :: set rest key value

/-- A field that is set has its new value, and every other field the old one. -/
theorem get?_set (fields : Fields) (key name : Key) (value : Json) :
    get? (set fields key value) name =
      if key.same name then some value else get? fields name := by
  induction fields with
  | nil => by_cases h : key.same name <;> simp [set, get?, h]
  | cons f rest ih =>
    obtain ⟨k, v⟩ := f
    rw [set]
    by_cases hk : k.same key
    · rw [if_pos hk]
      by_cases h : key.same name
      · simp [get?, h, Key.same_trans hk h]
      · have hn : k.same name = false := by
          rw [Bool.eq_false_iff]
          intro hn
          exact h (Key.same_trans (Key.same_comm k key ▸ hk) hn)
        simp [get?, h, hn]
    · rw [if_neg hk]
      by_cases hn : k.same name
      · have h : key.same name = false := by
          rw [Bool.eq_false_iff]
          intro h
          exact hk (Key.same_trans hn (Key.same_comm key name ▸ h))
        simp [get?, hn, h]
      · simp only [get?, List.find?_cons, hn] at ih ⊢
        exact ih

@[simp] theorem keys_cons (f : Key × Json) (rest : Fields) :
    keys (f :: rest) = f.1 :: keys rest := rfl

/-- Setting a field keeps the order of the fields; a new one comes last. -/
theorem keys_set (fields : Fields) (key : Key) (value : Json) :
    keys (set fields key value) =
      if has fields key then keys fields else keys fields ++ [key] := by
  induction fields with
  | nil => simp [set, has, keys]
  | cons f rest ih =>
    obtain ⟨k, v⟩ := f
    rw [set]
    by_cases hk : k.same key
    · simp [has, hk]
    · rw [if_neg hk, keys_cons, keys_cons, ih]
      by_cases hr : rest.any fun f => f.1.same key
      · simp [has, hr]
      · simp [has, hr, hk]

def update (fields new : Fields) : Fields := new.foldl (fun fs f => set fs f.1 f.2) fields

end Fields

def Key.toJson : Key → Json
  | .name s => .str s
  | .null => .null
  | .bool b => .bool b
  | .int n => .int n
  | .double x => .double x
  | .code source escaped => .code source.toJson escaped.toJson

/-- The key can be written: it has no code example in it. -/
def Key.isWritable : Key → Bool
  | .code _ _ => false
  | _ => true

namespace Json

/-- Every object, at every depth, has fields with different keys. -/
inductive WellFormed : Json → Prop
  | null : WellFormed .null
  | bool (b : Bool) : WellFormed (.bool b)
  | int (n : Int) : WellFormed (.int n)
  | double (x : Double) : WellFormed (.double x)
  | str (s : String) : WellFormed (.str s)
  | arr {items : List Json} : (∀ v ∈ items, WellFormed v) → WellFormed (.arr items)
  | obj {fields : Fields} : fields.keys.Pairwise (fun k l => k.same l = false) →
      (∀ f ∈ fields, WellFormed f.2) → WellFormed (.obj fields)
  | code {source escaped : Json} : WellFormed source → WellFormed escaped →
      WellFormed (.code source escaped)

/-- The values that count as "no": null, false, zero, and whatever is empty. -/
def isTruthy : Json → Bool
  | .null => false
  | .bool b => b
  | .int n => n != 0
  | .double x => !x.isZero
  | .str s => !s.isEmpty
  | .arr items => !items.isEmpty
  | .obj fields => !fields.isEmpty
  | .code _ _ => true

/-- The value if it counts as "yes", else the other one. -/
def orElse (v w : Json) : Json := if v.isTruthy then v else w

def isNull : Json → Bool
  | .null => true
  | _ => false

def isCode : Json → Bool
  | .code _ _ => true
  | _ => false

/-- A code example as a document shows it; all else is shown as it is. -/
def shown : Json → Json
  | .code source escaped => .obj [("example", source), ("escaped", escaped)]
  | v => v

/-- A value as a key. Lists and objects cannot be keys. -/
def key? : Json → Option Key
  | .null => some .null
  | .bool b => some (.bool b)
  | .int n => some (.int n)
  | .double x => some (.double x)
  | .str s => some (.name s)
  | .arr _ | .obj _ => none
  | .code source escaped => do return .code (← source.key?) (← escaped.key?)

def isKey (v : Json) : Bool := v.key?.isSome

/-- The value is a number; the truth values count as numbers. -/
def isNumber : Json → Bool
  | .bool _ | .int _ | .double _ => true
  | _ => false

def kindName : Json → String
  | .null => "NoneType"
  | .bool _ => "bool"
  | .int _ => "int"
  | .double _ => "float"
  | .str _ => "str"
  | .arr _ => "list"
  | .obj _ => "dict"
  | .code _ _ => "Example"

mutual

/-- The value can be written: no code example is left in it. -/
def isWritable : Json → Bool
  | .arr items => itemsWritable items
  | .obj fields => fieldsWritable fields
  | .code _ _ => false
  | _ => true

def itemsWritable : List Json → Bool
  | [] => true
  | v :: vs => isWritable v && itemsWritable vs

def fieldsWritable : List (Key × Json) → Bool
  | [] => true
  | (k, v) :: fs => k.isWritable && isWritable v && fieldsWritable fs

end

end Json

end StyleGuide

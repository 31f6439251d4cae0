import StyleGuide.Json.Printer

/-!
# Equal values

Two values are the same if they have the same canonical form: every number in its plainest
form, and the fields of every object in the order of their keys. So `1`, `1.0` and `true` are
the same, and the order of fields does not count. Comparing forms makes this an equivalence.
-/

namespace StyleGuide.Json

mutual

/-- Two values are written alike, the order of fields included. -/
def alike : Json → Json → Bool
  | .null, .null => true
  | .bool a, .bool b => a == b
  | .int a, .int b => a == b
  | .double a, .double b => a == b
  | .str a, .str b => a == b
  | .arr vs, .arr ws => alikeItems vs ws
  | .obj fs, .obj gs => alikeFields fs gs
  | .code a b, .code c d => alike a c && alike b d
  | _, _ => false

def alikeItems : List Json → List Json → Bool
  | [], [] => true
  | v :: vs, w :: ws => alike v w && alikeItems vs ws
  | _, _ => false

def alikeFields : List (Key × Json) → List (Key × Json) → Bool
  | [], [] => true
  | (k, v) :: fs, (l, w) :: gs => k == l && alike v w && alikeFields fs gs
  | _, _ => false

end

mutual

/-- Values that are written alike are equal. -/
theorem alike_iff : ∀ v w : Json, alike v w = true ↔ v = w
  | .null, w => by cases w <;> simp [alike]
  | .bool a, w => by cases w <;> simp [alike]
  | .int a, w => by cases w <;> simp [alike]
  | .double a, w => by cases w <;> simp [alike]
  | .str a, w => by cases w <;> simp [alike]
  | .arr vs, w => by
    cases w with
    | arr ws => simp [alike, alikeItems_iff vs ws]
    | _ => simp [alike]
  | .obj fs, w => by
    cases w with
    | obj gs => simp [alike, alikeFields_iff fs gs]
    | _ => simp [alike]
  | .code a b, w => by
    cases w with
    | code c d => simp [alike, alike_iff a c, alike_iff b d]
    | _ => simp [alike]

/-- Lists with items that are written alike are equal. -/
theorem alikeItems_iff : ∀ vs ws : List Json, alikeItems vs ws = true ↔ vs = ws
  | [], ws => by cases ws <;> simp [alikeItems]
  | v :: vs, ws => by
    cases ws with
    | nil => simp [alikeItems]
    | cons w ws => simp [alikeItems, alike_iff v w, alikeItems_iff vs ws]

/-- Objects with fields that are written alike are equal. -/
theorem alikeFields_iff :
    ∀ fs gs : List (Key × Json), alikeFields fs gs = true ↔ fs = gs
  | [], gs => by cases gs <;> simp [alikeFields]
  | (k, v) :: fs, gs => by
    cases gs with
    | nil => simp [alikeFields]
    | cons g gs =>
      obtain ⟨l, w⟩ := g
      simp [alikeFields, alike_iff v w, alikeFields_iff fs gs]

end

instance : DecidableEq Json := fun v w => decidable_of_iff _ (alike_iff v w)

def sortFields (fields : Fields) : Fields :=
  fields.mergeSort fun f g =>
    decide (String.ofList (keyText f.1) ≤ String.ofList (keyText g.1))

mutual

/-- A value with every number in its plainest form and the fields of every object in order. -/
def canonical : Json → Json
  | .null => .null
  | .bool b => (Key.bool b).canonical.toJson
  | .int n => .int n
  | .double x => (Key.double x).canonical.toJson
  | .str s => .str s
  | .arr vs => .arr (canonicalItems vs)
  | .obj fs => .obj (sortFields (canonicalFields fs))
  | .code source escaped => .code (canonical source) (canonical escaped)

def canonicalItems : List Json → List Json
  | [] => []
  | v :: vs => canonical v :: canonicalItems vs

def canonicalFields : List (Key × Json) → List (Key × Json)
  | [] => []
  | (k, v) :: fs => (k.canonical, canonical v) :: canonicalFields fs

end

def same (v w : Json) : Bool := v.canonical = w.canonical

@[simp] theorem same_refl (v : Json) : v.same v = true := by simp [same]

theorem same_comm (v w : Json) : v.same w = w.same v := by simp [same, eq_comm]

/-- Being the same is decided by the canonical forms, and so carries over. -/
theorem same_trans {u v w : Json} (h : u.same v = true) (h' : v.same w = true) :
    u.same w = true := by
  simp only [same, decide_eq_true_eq] at h h' ⊢
  rw [h, h']

/-- Texts are the same only if they are equal. -/
@[simp] theorem same_str (a b : String) : (Json.str a).same (.str b) = decide (a = b) := by
  simp [same, canonical]

end StyleGuide.Json

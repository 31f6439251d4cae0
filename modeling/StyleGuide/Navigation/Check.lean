import StyleGuide.Json.Printer

/-!
# Checking a navigation template

The navigation template decides the order and the grouping of pages:

    "components": {
      "name": "Components",
      "children": [
        { "component": "button",
          "sections": [ { "section": "default", "core": true } ] } ] }

It is an object of categories. The children of a category are objects that name a component,
and the sections of a child form a list. Nothing else is asked of it.
-/

namespace StyleGuide.Navigation

inductive TemplateFault where
  | notAnObject (kind : String)
  | categoryNotAnObject (category : Key)
  | childrenNotAList (category : Key)
  | childWithoutComponent (category : Key) (child : Json)
  | sectionsNotAList (component : Json)

def TemplateFault.message : TemplateFault → String
  | notAnObject kind => s!"Navigation template must be an object, got {kind}"
  | categoryNotAnObject category =>
    s!"Navigation category {category.quoted} must be an object"
  | childrenNotAList category =>
    s!"Navigation category {category.quoted}: children must be a list"
  | childWithoutComponent category child =>
    s!"Navigation category {category.quoted}: child without 'component': {child.quoted}"
  | sectionsNotAList component =>
    s!"Navigation component {component.quoted}: sections must be a list"

def childFault? (category : Key) : Json → Option TemplateFault
  | .obj fields =>
    match Fields.get? fields "component" with
    | none => some (.childWithoutComponent category (.obj fields))
    | some component =>
      match Fields.getD fields "sections" (.arr []) with
      | .arr _ => none
      | _ => some (.sectionsNotAList component)
  | child => some (.childWithoutComponent category child)

def categoryFault? (category : Key) : Json → Option TemplateFault
  | .obj fields =>
    match Fields.getD fields "children" (.arr []) with
    | .arr children => children.findSome? (childFault? category)
    | _ => some (.childrenNotAList category)
  | _ => some (.categoryNotAnObject category)

def templateFault? : Json → Option TemplateFault
  | .obj categories => categories.findSome? fun (key, category) => categoryFault? key category
  | v => some (.notAnObject v.kindName)

/-- A template without fault is taken as it is. -/
def check (template : Json) : Except TemplateFault Json :=
  match templateFault? template with
  | some fault => .error fault
  | none => .ok template

end StyleGuide.Navigation

import Stencil.Merge
import Stencil.Path

/-!
# New pages

A new page is its template laid out with the template's own content and parameters, and bound to
it. Merging it with the template gives it back.
-/

namespace Stencil.NewPage

/-- The comment that binds a page to a template reference. Nothing is escaped. -/
def bindingComment (reference locked : Text) : Text :=
  Text.concat ["<!-- InstanceBegin template=\"", reference, "\" codeOutsideHTMLIsLocked=\"", locked,
    "\" -->"]

def bindingEndComment : Text := "<!-- InstanceEnd -->"

/-- The first lock attribute before the next `>`. -/
def lockFrom? : Text → Option (Text × Text)
  | [] => none
  | g :: t =>
    let here := do
      let rest ← Text.dropWord? "codeoutsidehtmlislocked".toList (g :: t)
      let quoted ← Skeleton.dropAssign? rest
      Text.upTo? (.char '"') quoted
    match here with
    | some found => some found
    | none => if g = .char '>' then none else lockFrom? t

/-- What a comment that describes the template says about locked code. -/
def lockForm : Form Text := fun _ t => (Skeleton.infoHead? t).bind lockFrom?

/-- Whether the template locks the code outside its regions, as it says itself. -/
def locked (template : Template) : Text := (lockForm.first? template.text).getD "false"

/-- How pages of a site refer to a template: from the site root if it lies below, by its name if
not. Both paths are resolved. -/
def reference (site template : Path) (name : Text) : Text :=
  match site.below? template with
  | some parts => Text.concat ["/", Path.relativeText parts]
  | none => name

/-- The text of a new page bound to its template by `reference`. -/
def create (template : Template) (reference : Text) : Text :=
  let (assembly, _) := Merge.assemble template [] template.params
  let html : Anchor := ⟨some Assembly.htmlTag, 1, []⟩
  ((assembly.placeBindingEnd bindingEndComment html).placeBinding
    (bindingComment reference (locked template)) html).text

end Stencil.NewPage

import Stencil.Assembly
import Stencil.Document.Build

/-!
# Deriving a page from its template

The template owns the structure and the page owns the content of its regions. A merge lays out
the template, converted to page text, with the page's content wherever the page has the region
and the template's own content elsewhere. The page's binding comments go back beside the tags
they stood against. Nothing else of the page's own skeleton survives, and regions that the
template no longer declares are reported with their content.
-/

namespace Stencil

/-- What became of a region. -/
inductive RegionStatus where
  | unchanged
  | contentKept
  | added
  | removed
deriving DecidableEq, Repr

/-- The content a region had in the page, and the content it has now. -/
structure Change where
  name : Text
  status : RegionStatus
  old : Option Text
  new : Option Text
deriving DecidableEq, Repr

structure Merged where
  text : Text
  changes : List Change
deriving DecidableEq, Repr

def Merged.count (m : Merged) (status : RegionStatus) : Nat :=
  (m.changes.filter fun change => change.status = status).length

namespace Merge

/-- The content of a name; of several the last one counts. -/
def content? (contents : List (Text × Text)) (name : Text) : Option Text :=
  ((contents.filter fun entry => entry.1 = name).getLast?).map (·.2)

/-- What is written for a region of the template, and the report on it. -/
def layRegion (contents : List (Text × Text)) (name default : Text) : Text × Change :=
  match content? contents name with
  | some current =>
    (current, ⟨name, if current = default then .unchanged else .contentKept, some current,
      some current⟩)
  | none => (default, ⟨name, .added, none, some default⟩)

/-- Lays out the segments of a template behind what has been laid already. -/
def layFrom (contents : List (Text × Text)) (params : List Param) (laid : Assembly) :
    List Segment → Assembly × List Change
  | [] => (laid, [])
  | .literal text :: rest =>
    layFrom contents params (laid.addSkeleton (Skeleton.toPage params text)) rest
  | .region name default _ :: rest =>
    let (text, change) := layRegion contents name default
    let (assembly, changes) := layFrom contents params (laid.addRegion text) rest
    (assembly, change :: changes)

/-- The template laid out with these contents and parameters. -/
def assemble (template : Template) (contents : List (Text × Text)) (params : List Param) :
    Assembly × List Change :=
  layFrom contents params .empty template.segments

/-- A gap that holds anything but blanks is not kept. -/
def blankOrNone (gap : Text) : Text := if gap.isBlank then gap else []

/-- Where the binding of a page stands: behind the last start tag before it. -/
def bindingAnchor (page : Page) : Anchor :=
  let before := page.text.take page.binding.start
  let starts := Tag.starts before
  match starts.getLast? with
  | none => ⟨none, 0, blankOrNone before⟩
  | some last =>
    ⟨some last.value, starts.countP (fun found => found.value = last.value),
      blankOrNone (before.drop last.stop)⟩

/-- Where the end of a binding stands: before the first tag after it, if that one closes. -/
def bindingEndAnchor (page : Page) (bindingEnd : Marker.Token) : Anchor :=
  let after := page.text.drop bindingEnd.stop
  let tags := Tag.all after
  match tags.head? with
  | some first =>
    if first.value.1 then
      ⟨some first.value.2, tags.countP (fun found => found.value = first.value),
        blankOrNone (after.take first.start)⟩
    else ⟨none, 0, blankOrNone after⟩
  | none => ⟨none, 0, blankOrNone after⟩

/-- The regions of a page that its template does not declare. -/
def removals (template : Template) (page : Page) : List Change :=
  let kept := Segment.regionNames template.segments
  ((Segment.contents page.segments).filter fun entry => entry.1 ∉ kept).map fun entry =>
    ⟨entry.1, .removed, some entry.2, none⟩

/-- Puts the binding comments of a page into an assembly, the end first, since placing the binding
may put a piece in front. -/
def placeComments (page : Page) (assembly : Assembly) : Assembly :=
  let ended := match page.bindingEnd? with
    | some bindingEnd => assembly.placeBindingEnd bindingEnd.raw (bindingEndAnchor page bindingEnd)
    | none => assembly
  ended.placeBinding page.binding.raw (bindingAnchor page)

end Merge

/-- The page anew, after its template. -/
def merge (template : Template) (page : Page) : Merged :=
  let (assembly, changes) :=
    Merge.assemble template (Segment.contents page.segments) page.params
  ⟨(Merge.placeComments page assembly).text, changes ++ Merge.removals template page⟩

end Stencil

import Stencil.Merge
import Stencil.Proofs.Assembly.Spots
import Stencil.Proofs.Document.Binding

/-!
# Where the indexes of an assembly point

The index of a skeleton piece is noted when the piece is laid, and is never changed. Pieces that are
laid later go behind it and leave it right, except for a binding that finds no tag: that goes in front
of everything, and each time it does, every index noted before points one piece further to the left
of its own. A draft carries what each piece was laid as beside the assembly (`Draft`), so that this can
be said: the indexes avoid all regions just when no region stands as many pieces before a skeleton
piece as have been put in front since that one was laid (`Clear`). As long as that is so, an
operation leaves the regions as they were laid. `run_indexed_iff` says both of every course of
operations. A merge puts its binding in front as the last thing it does (`run_kept_of_front_last`), so
it leaves all regions as they were laid out (`kept_placeComments`); with the comments of a page placed
the other way round, a region may be written to (`not_indexed_headless`).
-/

namespace Stencil

open Marker

namespace Assembly

/-- What a piece was laid as: skeleton, a region with its text, or a comment at an edge. -/
inductive Role where
  | skeleton
  | region (text : Text)
  | front
  | back
deriving DecidableEq, Repr

/-- The operations on an assembly. -/
inductive Op where
  | addSkeleton (text : Text)
  | addRegion (text : Text)
  | insertAfterStartTag (tag : Text) (occurrence : Int) (text : Text)
  | insertBeforeClosingTag (tag : Text) (occurrence : Int) (text : Text)
  | placeBinding (raw : Text) (anchor : Anchor)
  | placeBindingEnd (raw : Text) (anchor : Anchor)
deriving DecidableEq, Repr

/-- What an operation makes of an assembly. One that finds no tag to insert at leaves it as it is,
and so does one that fails because its count from the end cannot be followed. -/
def Op.apply (a : Assembly) : Op → Assembly
  | addSkeleton text => a.addSkeleton text
  | addRegion text => a.addRegion text
  | insertAfterStartTag tag occurrence text => (a.insertAfterStartTag tag occurrence text).getD a
  | insertBeforeClosingTag tag occurrence text =>
    (a.insertBeforeClosingTag tag occurrence text).getD a
  | placeBinding raw anchor => a.placeBinding raw anchor
  | placeBindingEnd raw anchor => if a.anchorOK anchor then a.placeBindingEnd raw anchor else a

/-- What an operation lays a new piece as, if it does not write into one that is there. -/
def Op.lays? (a : Assembly) : Op → Option Role
  | addSkeleton _ => some .skeleton
  | addRegion text => some (.region text)
  | insertAfterStartTag .. | insertBeforeClosingTag .. => none
  | placeBinding _ anchor => if (a.bindingSpot? anchor).isSome then none else some .front
  | placeBindingEnd _ anchor =>
    if a.anchorOK anchor && (a.bindingEndSpot? anchor).isNone then some .back else none

/-! ## What one operation does -/

/-- An operation does nothing, writes into a skeleton piece, or lays one piece at an edge. -/
inductive Effect (a : Assembly) : Option Role → Assembly → Prop
  | nothing : Effect a none a
  | written {spot : Spot} (hspot : spot.piece ∈ a.skeleton) (text : Text) :
      Effect a none (a.insertAt spot text)
  | skeleton (text : Text) : Effect a (some .skeleton) (a.addSkeleton text)
  | region (text : Text) : Effect a (some (.region text)) (a.addRegion text)
  | front (piece : Text) : Effect a (some .front) (a.prepend piece)
  | back (piece : Text) : Effect a (some .back) (a.append piece)

theorem effect_apply (a : Assembly) (op : Op) : Effect a (op.lays? a) (op.apply a) := by
  cases op with
  | addSkeleton text => exact .skeleton text
  | addRegion text => exact .region text
  | insertAfterStartTag tag occurrence text =>
      rw [Op.apply, Op.lays?, insertAfterStartTag]
      cases hspot : pickFromStart (a.startSpots tag) occurrence with
      | none => exact .nothing
      | some spot => exact .written (cuts_of_mem_startSpots (mem_of_pickFromStart hspot)).1 text
  | insertBeforeClosingTag tag occurrence text =>
      rw [Op.apply, Op.lays?, insertBeforeClosingTag]
      cases hspot : pickFromEnd (a.closingSpots tag) occurrence with
      | none => exact .nothing
      | some spot => exact .written (cuts_of_mem_closingSpots (mem_of_pickFromEnd hspot)).1 text
  | placeBinding raw anchor =>
      obtain ⟨gap, -, hplace⟩ := a.placeBinding_cases raw anchor
      rw [Op.apply, Op.lays?, hplace]
      cases hspot : a.bindingSpot? anchor with
      | none => exact .front _
      | some spot =>
          obtain ⟨tag, hmem⟩ := exists_of_bindingSpot? hspot
          exact .written (cuts_of_mem_startSpots hmem).1 _
  | placeBindingEnd raw anchor =>
      obtain ⟨gap, -, hplace⟩ := a.placeBindingEnd_cases raw anchor
      rw [Op.apply, Op.lays?, hplace]
      cases a.anchorOK anchor with
      | false => exact .nothing
      | true =>
          cases hspot : a.bindingEndSpot? anchor with
          | none => exact .back _
          | some spot =>
              obtain ⟨tag, hmem⟩ := exists_of_bindingEndSpot? hspot
              exact .written (cuts_of_mem_closingSpots hmem).1 _

/-! ## Roles of pieces -/

/-- Where a new piece comes to stand. -/
def Role.join (roles : List Role) (role : Role) : List Role :=
  if role = front then role :: roles else roles ++ [role]

/-- The roles of pieces in the order in which they stand, from the order in which they were laid. -/
def standing (laid : List Role) : List Role := laid.foldl Role.join []

/-- The roles of the pieces that were laid at the end. -/
def appended (laid : List Role) : List Role := laid.filter fun role => role ≠ .front

@[simp] theorem appended_append (laid later : List Role) :
    appended (laid ++ later) = appended laid ++ appended later := List.filter_append ..

theorem appended_cons_of_ne {role : Role} (h : role ≠ .front) (laid : List Role) :
    appended (role :: laid) = role :: appended laid := List.filter_cons_of_pos (by simp [h])

theorem standing_concat (laid : List Role) (role : Role) :
    standing (laid ++ [role]) = Role.join (standing laid) role := by
  rw [standing, List.foldl_append]
  rfl

theorem standing_eq (laid : List Role) :
    standing laid = List.replicate (laid.count .front) .front ++ appended laid := by
  induction laid using List.reverseRecOn with
  | nil => rfl
  | append_singleton laid role ih =>
      rw [standing_concat, ih, Role.join, List.count_append, appended_append]
      split
      · next hrole => simp [hrole, appended, List.replicate_succ]
      · next hrole => simp [hrole, appended]

theorem count_add_length_appended (laid : List Role) :
    laid.count .front + (appended laid).length = laid.length := by
  rw [appended, ← List.countP_eq_length_filter, List.length_eq_countP_add_countP (· == .front)]
  simp [List.count]

theorem length_standing (laid : List Role) : (standing laid).length = laid.length := by
  rw [standing_eq, List.length_append, List.length_replicate, count_add_length_appended]

/-- No region stands so many pieces before a skeleton piece as have been put in front since that one
was laid. -/
def Clear (laid : List Role) : Prop :=
  ∀ earlier later, laid = earlier ++ .skeleton :: later →
    ∀ before text after, appended earlier = before ++ .region text :: after →
      after.length + 1 ≠ later.count .front

/-- Where nothing was put in front no index has moved. -/
theorem clear_of_not_mem {laid : List Role} (h : Role.front ∉ laid) : Clear laid := by
  rintro earlier later rfl before text after -
  have hcount : later.count .front = 0 := List.count_eq_zero.mpr fun hmem => h (by simp [hmem])
  omega

/-- The piece at the index that was noted for a skeleton piece. The index is the number of pieces
laid before, and the pieces put in front since have moved all others behind it. -/
theorem standing_split (earlier later : List Role) (text : Text) :
    (standing (earlier ++ .skeleton :: later))[earlier.length]? = some (.region text) ↔
      ∃ before after, appended earlier = before ++ .region text :: after ∧
        after.length + 1 = later.count .front := by
  have hlength := count_add_length_appended earlier
  have hstanding : standing (earlier ++ .skeleton :: later) =
      List.replicate (earlier.count .front + later.count .front) .front ++
        (appended earlier ++ .skeleton :: appended later) := by
    rw [standing_eq, appended_append, appended_cons_of_ne (by decide), List.count_append,
      List.count_cons_of_ne (by decide)]
  rw [hstanding]
  by_cases hfew : (appended earlier).length < later.count .front
  · -- the index points to a piece in front
    rw [List.getElem?_append_left (by rw [List.length_replicate]; omega),
      List.getElem?_replicate_of_lt (by omega)]
    refine ⟨nofun, ?_⟩
    rintro ⟨before, after, heq, hafter⟩
    rw [heq, List.length_append, List.length_cons] at hfew
    omega
  · rw [List.getElem?_append_right (by rw [List.length_replicate]; omega), List.length_replicate,
      show earlier.length - (earlier.count .front + later.count .front) =
        (appended earlier).length - later.count .front by omega]
    rcases Nat.eq_zero_or_pos (later.count .front) with hzero | hpos
    · -- the index points to its own piece
      rw [hzero, Nat.sub_zero, getElem?_split]
      refine ⟨nofun, ?_⟩
      rintro ⟨before, after, -, hafter⟩
      omega
    · -- the index points so many pieces too far to the left
      rw [List.getElem?_append_left (by omega)]
      constructor
      · intro h
        obtain ⟨before, after, heq, hindex⟩ := exists_split_of_getElem? h
        refine ⟨before, after, heq, ?_⟩
        have hcut := congrArg List.length heq
        rw [List.length_append, List.length_cons] at hcut
        omega
      · rintro ⟨before, after, heq, hafter⟩
        have hindex : (appended earlier).length - later.count .front = before.length := by
          rw [heq, List.length_append, List.length_cons]
          omega
        rw [hindex, heq, getElem?_split]

/-! ## Drafts -/

/-- An assembly with what each piece was laid as, in the order in which the pieces were laid. -/
structure Draft where
  assembly : Assembly
  laid : List Role

namespace Draft

def empty : Draft := ⟨.empty, []⟩

/-- What a segment of a template is laid as. -/
def roleOf (contents : List (Text × Text)) : Segment → Role
  | .literal _ => .skeleton
  | .region name default _ => .region (Merge.layRegion contents name default).1

/-- A template that was laid out. -/
def assembled (template : Template) (contents : List (Text × Text)) (params : List Param) : Draft :=
  ⟨(Merge.assemble template contents params).1, template.segments.map (roleOf contents)⟩

/-- Where a course of operations may begin. -/
inductive IsOrigin : Draft → Prop
  | empty : IsOrigin empty
  | assembled (template : Template) (contents : List (Text × Text)) (params : List Param) :
      IsOrigin (assembled template contents params)

def step (d : Draft) (op : Op) : Draft :=
  ⟨op.apply d.assembly, d.laid ++ (op.lays? d.assembly).toList⟩

def run (d : Draft) (ops : List Op) : Draft := ops.foldl step d

/-- Every index of the skeleton designates a piece that was not laid as a region. -/
def Indexed (d : Draft) : Prop :=
  ∀ i ∈ d.assembly.skeleton, i < d.assembly.pieces.length ∧
    ∀ text, (standing d.laid)[i]? ≠ some (.region text)

/-- Every piece that was laid as a region has the text it was laid with. -/
def Kept (d : Draft) : Prop :=
  ∀ (i : Nat) (text : Text), (standing d.laid)[i]? = some (.region text) →
    d.assembly.pieces[i]? = some text

/-- The indexes are the numbers of the skeleton pieces among all pieces, as they were laid. -/
structure Reflects (d : Draft) : Prop where
  length_eq : d.assembly.pieces.length = d.laid.length
  mem_iff : ∀ i, i ∈ d.assembly.skeleton ↔ d.laid[i]? = some .skeleton

/-! ## One step -/

section Step

variable {d : Draft}

theorem Reflects.step (h : d.Reflects) (op : Op) : (d.step op).Reflects := by
  have hlast : ∀ role i, (d.laid ++ [role])[i]? = some Role.skeleton ↔
      d.laid[i]? = some .skeleton ∨ i = d.laid.length ∧ role = .skeleton := by
    intro role i
    grind
  have heffect := effect_apply d.assembly op
  rw [Draft.step]
  generalize op.apply d.assembly = a at heffect ⊢
  generalize op.lays? d.assembly = laid at heffect ⊢
  obtain ⟨hlength, hmem⟩ := h
  cases heffect with
  | nothing => exact ⟨by simp [hlength], by simp [hmem]⟩
  | written hspot text => exact ⟨by simp [insertAt, hlength], by simp [insertAt, hmem]⟩
  | skeleton text =>
      refine ⟨by simp [addSkeleton, hlength], fun i => ?_⟩
      rw [Option.toList_some, hlast, ← hmem, addSkeleton, hlength]
      simp
  | region text =>
      refine ⟨by simp [addRegion, hlength], fun i => ?_⟩
      rw [Option.toList_some, hlast, ← hmem, addRegion]
      simp
  | front piece =>
      refine ⟨by simp [prepend, hlength], fun i => ?_⟩
      rw [Option.toList_some, hlast, ← hmem, prepend]
      simp
  | back piece =>
      refine ⟨by simp [append, hlength], fun i => ?_⟩
      rw [Option.toList_some, hlast, ← hmem, append]
      simp

/-- The indexes avoid all regions just when no region has come to stand where one of them points. -/
theorem Reflects.indexed_iff (h : d.Reflects) : d.Indexed ↔ Clear d.laid := by
  constructor
  · intro hindexed earlier later heq before text after hbefore hcount
    have hmem : earlier.length ∈ d.assembly.skeleton := by
      rw [h.mem_iff, heq, getElem?_split]
    refine (hindexed _ hmem).2 text ?_
    rw [heq]
    exact (standing_split earlier later text).mpr ⟨before, after, hbefore, hcount⟩
  · intro hclear i hi
    obtain ⟨earlier, later, heq, rfl⟩ := exists_split_of_getElem? ((h.mem_iff i).mp hi)
    refine ⟨?_, fun text htext => ?_⟩
    · rw [h.length_eq, heq, List.length_append, List.length_cons]
      omega
    · rw [heq] at htext
      obtain ⟨before, after, hbefore, hcount⟩ := (standing_split earlier later text).mp htext
      exact hclear earlier later heq before text after hbefore hcount

/-- A piece more at the end leaves the others with their roles. -/
theorem kept_concat {a : Assembly} {laid : List Role} {role : Role} {piece : Text}
    (hlength : a.pieces.length = laid.length) (hkept : Kept ⟨a, laid⟩) (hrole : role ≠ .front)
    (hpiece : ∀ text, role = .region text → piece = text) (skeleton : List Nat) :
    Kept ⟨⟨a.pieces ++ [piece], skeleton⟩, laid ++ [role]⟩ := by
  intro i text hi
  rw [standing_concat, Role.join, if_neg hrole] at hi
  have hstanding := length_standing laid
  rcases Nat.lt_or_ge i laid.length with hlt | hge
  · rw [List.getElem?_append_left (by omega)] at hi
    rw [List.getElem?_append_left (by omega)]
    exact hkept i text hi
  · rw [List.getElem?_append_right (by omega), List.getElem?_singleton] at hi
    split at hi
    · next hzero =>
      rw [List.getElem?_append_right (by omega), hlength, ← hstanding, hzero,
        List.getElem?_cons_zero, hpiece text (Option.some.inj hi)]
    · cases hi

/-- While all indexes avoid the regions, an operation leaves the regions as they are. -/
theorem Reflects.kept_step (h : d.Reflects) (hindexed : d.Indexed) (hkept : d.Kept) (op : Op) :
    (d.step op).Kept := by
  have heffect := effect_apply d.assembly op
  rw [Draft.step]
  generalize op.apply d.assembly = a at heffect ⊢
  generalize op.lays? d.assembly = laid at heffect ⊢
  cases heffect with
  | nothing => rwa [Option.toList_none, List.append_nil]
  | @written spot hspot text =>
      rw [Option.toList_none, List.append_nil]
      intro i content hi
      have hne : spot.piece ≠ i := by
        rintro rfl
        exact (hindexed _ hspot).2 content hi
      exact (List.getElem?_modify_ne _ _ hne).trans (hkept i content hi)
  | skeleton text => exact kept_concat h.length_eq hkept (by decide) (by simp) _
  | region text =>
      exact kept_concat h.length_eq hkept (by simp) (fun content hrole => by cases hrole; rfl) _
  | front piece =>
      intro i content hi
      rw [Option.toList_some, standing_concat, Role.join, if_pos rfl] at hi
      cases i with
      | zero => cases hi
      | succ i => exact hkept i content hi
  | back piece => exact kept_concat h.length_eq hkept (by decide) (by simp) _

end Step

/-! ## Courses of operations -/

section Run

variable {d : Draft}

theorem run_concat (d : Draft) (ops : List Op) (op : Op) :
    d.run (ops ++ [op]) = (d.run ops).step op := by
  rw [run, List.foldl_append]
  rfl

theorem Reflects.run (h : d.Reflects) (ops : List Op) : (d.run ops).Reflects := by
  induction ops using List.reverseRecOn with
  | nil => exact h
  | append_singleton ops op ih =>
      rw [run_concat]
      exact ih.step op

/-- Regions are kept as long as the indexes avoid them before each operation. -/
theorem Reflects.kept_run (h : d.Reflects) (hkept : d.Kept) {ops : List Op}
    (hclear : ∀ done op later, ops = done ++ op :: later → Clear (d.run done).laid) :
    (d.run ops).Kept := by
  induction ops using List.reverseRecOn with
  | nil => exact hkept
  | append_singleton ops op ih =>
      have hbefore := ih fun done next later heq =>
        hclear done next (later ++ [op]) (by rw [heq, List.append_assoc, List.cons_append])
      rw [run_concat]
      have hindexed := (h.run ops).indexed_iff.mpr (hclear ops op [] rfl)
      exact (h.run ops).kept_step hindexed hbefore op

end Run

/-- The operation that lays a segment of a template. -/
def opOf (contents : List (Text × Text)) (params : List Param) : Segment → Op
  | .literal text => .addSkeleton (Skeleton.toPage params text)
  | .region name default _ => .addRegion (Merge.layRegion contents name default).1

theorem run_opOf (contents : List (Text × Text)) (params : List Param) (segments : List Segment)
    (d : Draft) : d.run (segments.map (opOf contents params)) =
      ⟨(Merge.layFrom contents params d.assembly segments).1,
        d.laid ++ segments.map (roleOf contents)⟩ := by
  induction segments generalizing d with
  | nil => simp [run, Merge.layFrom]
  | cons segment segments ih =>
      have hnext := ih (d.step (opOf contents params segment))
      rw [List.map_cons, run, List.foldl_cons, ← run, hnext]
      cases segment with
      | literal text => simp [step, opOf, Op.apply, Op.lays?, roleOf, Merge.layFrom]
      | region name default span => simp [step, opOf, Op.apply, Op.lays?, roleOf, Merge.layFrom]

/-- A template that was laid out is a course of operations from nothing. -/
theorem assembled_eq_run (template : Template) (contents : List (Text × Text))
    (params : List Param) : assembled template contents params =
      empty.run (template.segments.map (opOf contents params)) := by
  rw [run_opOf]
  rfl

theorem IsOrigin.reflects {d : Draft} (h : d.IsOrigin) : d.Reflects := by
  have hempty : Draft.empty.Reflects := ⟨rfl, fun i => by simp [Draft.empty, Assembly.empty]⟩
  cases h with
  | empty => exact hempty
  | assembled template contents params =>
      rw [assembled_eq_run]
      exact hempty.run _

theorem IsOrigin.kept {d : Draft} (h : d.IsOrigin) : d.Kept := by
  have hkept : Draft.empty.Kept := fun i text hi => by simp [Draft.empty, standing] at hi
  cases h with
  | empty => exact hkept
  | assembled template contents params =>
      rw [assembled_eq_run]
      refine IsOrigin.empty.reflects.kept_run hkept fun done op later heq => clear_of_not_mem ?_
      obtain ⟨segments, rest, -, rfl, -⟩ := List.map_eq_append_iff.mp heq
      rw [run_opOf]
      intro hmem
      obtain ⟨segment, -, hsegment⟩ := List.mem_map.mp hmem
      cases segment <;> cases hsegment

/-- Whatever is done to an assembly, its indexes avoid the regions just when no region stands as many
pieces before a skeleton piece as have been put in front since that one was laid. If that is so before
each operation, then after the last one the regions are as they were laid. -/
theorem run_indexed_iff {d : Draft} (hd : d.IsOrigin) (ops : List Op) :
    ((d.run ops).Indexed ↔ Clear (d.run ops).laid) ∧
      ((∀ done op later, ops = done ++ op :: later → Clear (d.run done).laid) →
        (d.run ops).Kept) :=
  ⟨(hd.reflects.run ops).indexed_iff, hd.reflects.kept_run hd.kept⟩

/-! ## Courses that are safe -/

theorem laid_run_append (d : Draft) (done later : List Op) :
    (d.run done).laid <+: (d.run (done ++ later)).laid := by
  induction later using List.reverseRecOn with
  | nil => rw [List.append_nil]
  | append_singleton later op ih =>
      rw [← List.append_assoc, run_concat]
      exact ih.trans (List.prefix_append _ _)

/-- Regions are kept if nothing is put in front before the last operation. -/
theorem run_kept_of_front_last {d : Draft} (hd : d.IsOrigin) {ops : List Op}
    (hfront : .front ∉ (d.run ops).laid) (op : Op) : (d.run (ops ++ [op])).Kept := by
  refine hd.reflects.kept_run hd.kept fun done next later heq => clear_of_not_mem fun hmem => ?_
  have hdone : done <+: ops := by
    rcases List.append_eq_append_iff.mp heq with ⟨more, rfl, hmore⟩ | ⟨more, rfl, -⟩
    · cases more with
      | nil => rw [List.append_nil]
      | cons => simp at hmore
    · exact List.prefix_append done more
  obtain ⟨more, rfl⟩ := hdone
  exact hfront ((laid_run_append d done more).subset hmem)

/-- The comments of a page are placed by these operations. -/
def commentOps (page : Page) : List Op :=
  (page.bindingEnd?.map fun bindingEnd =>
    Op.placeBindingEnd bindingEnd.raw (Merge.bindingEndAnchor page bindingEnd)).toList ++
  [.placeBinding page.binding.raw (Merge.bindingAnchor page)]

/-- The count of an anchor is that of a tag that is there. -/
theorem anchorOK_bindingEndAnchor (a : Assembly) (page : Page) (bindingEnd : Marker.Token) :
    a.anchorOK (Merge.bindingEndAnchor page bindingEnd) = true := by
  simp only [Merge.bindingEndAnchor]
  split
  · next first hfirst =>
    split
    · have hpos : 0 < (Tag.all (page.text.drop bindingEnd.stop)).countP
          fun found => found.value = first.value :=
        List.countP_pos_iff.mpr ⟨first, List.mem_of_head? hfirst, decide_eq_true rfl⟩
      simp only [anchorOK, countOK, Bool.or_eq_true, decide_eq_true_eq]
      exact Or.inl (Int.natCast_pos.mpr hpos)
    · rfl
  · rfl

theorem assembly_run_commentOps (d : Draft) (page : Page) :
    (d.run (commentOps page)).assembly = Merge.placeComments page d.assembly := by
  rw [commentOps, run_concat, Merge.placeComments]
  cases page.bindingEnd? with
  | none => rfl
  | some bindingEnd =>
      have hok := anchorOK_bindingEndAnchor d.assembly page bindingEnd
      simp [run, step, Op.apply, hok]

/-- A merge leaves all regions as they were laid out. -/
theorem kept_placeComments (template : Template) (contents : List (Text × Text))
    (params : List Param) (page : Page) :
    ((assembled template contents params).run (commentOps page)).Kept := by
  have hassembled : Role.front ∉ (assembled template contents params).laid := by
    intro hmem
    obtain ⟨segment, -, hsegment⟩ := List.mem_map.mp hmem
    cases segment <;> cases hsegment
  refine run_kept_of_front_last (.assembled template contents params) ?_ _
  cases page.bindingEnd? with
  | none => exact hassembled
  | some bindingEnd =>
      simp only [Option.map_some, Option.toList_some, run, List.foldl_cons, List.foldl_nil, step,
        Op.lays?, List.mem_append, hassembled, false_or]
      split <;> simp

/-! ## A course that is not -/

/-- A template that begins with a region. Its page has no tags, and a skeleton piece behind the
region. -/
def headless : Text :=
  Text.concat [wrap "TemplateBeginEditable name=\"r\"", "own</div>", wrap "TemplateEndEditable"]

/-- A binding, to go behind the first `html` tag. -/
def bindingFirst : Op :=
  .placeBinding (wrap "InstanceBegin template=\"/t.dwt\"") ⟨some htmlTag, 1, []⟩

/-- The end of a binding, to go before the last closing `div` tag. -/
def endSecond : Op := .placeBindingEnd (wrap "InstanceEnd") ⟨some "div", 1, []⟩

/-- The comments of a page placed in the wrong order. The binding goes in front, so that the index of
the last piece points to the region, and the end of the binding is written into that. -/
theorem not_indexed_headless : ∃ template, Template.build headless [] = .ok template ∧
    (assembled template [] []).IsOrigin ∧
    ¬ ((assembled template [] []).run [bindingFirst]).Indexed ∧
    ¬ ((assembled template [] []).run [bindingFirst, endSecond]).Kept := by
  have hrun : passes headless (wrap "InstanceBegin template=\"/t.dwt\"") (fun template _ =>
      let d := (assembled template [] []).run [bindingFirst]
      decide (d.laid = [.skeleton, .region "own</div>", .skeleton, .front] ∧
        (d.step endSecond).laid = d.laid ∧ (d.step endSecond).assembly.pieces[2]? =
          some (Text.concat ["own", wrap "InstanceEnd", "</div>"]))) = true := by decide +kernel
  obtain ⟨template, -, htemplate, -, htest⟩ := exists_of_passes hrun
  obtain ⟨hlaid, hsame, hpiece⟩ := of_decide_eq_true htest
  have horigin : (assembled template [] []).IsOrigin := .assembled template [] []
  refine ⟨template, htemplate, horigin, fun hindexed => ?_, fun hkept => ?_⟩
  · have hclear := (run_indexed_iff horigin _).1.mp hindexed
    exact hclear [.skeleton, .region "own</div>"] [.front] hlaid [.skeleton] "own</div>" []
      (by decide) (by decide)
  · have hregion : (standing ((assembled template [] []).run [bindingFirst, endSecond]).laid)[2]? =
        some (.region "own</div>") := by
      rw [show ((assembled template [] []).run [bindingFirst, endSecond]).laid = _ from
        hsame.trans hlaid]
      rfl
    have hown := hpiece.symm.trans (hkept 2 _ hregion)
    revert hown
    decide +kernel

end Draft

end Assembly

end Stencil

import Stencil.NewPage
import Stencil.Proofs.Marker.Grammar
import Stencil.Proofs.Merge.Stable

/-!
# The binding comments of a new page

A new page is bound by two comments that are written from a template reference. Where the reference
holds no quote and no delimiter of comments, the first of them is a comment, a binding, and names
just this reference. What the comment says about locked code may be any text of the same kind
(`classify_lockedBody`), and in a new page it is that none is locked (`classify_bindingBody`).
`exists_seed` gives a page that has these two comments
and nothing else, and making a new page is merging that page (`create_eq_merge`). A page that stands
between the two comments keeps them at its ends when it is merged with a template that has no tags
for them (`text_placeComments_enclose`).
-/

namespace Stencil

open Marker
open Assembly (htmlTag)

namespace NewPage

/-- A template reference that can be written into a comment: it holds no quote, and no delimiter of
comments. -/
structure IsReference (reference : Text) : Prop where
  no_quote : Glyph.char '"' ∉ reference
  no_opener : ¬ opener <:+: reference
  no_closer : ¬ closer <:+: reference

instance (reference : Text) : Decidable (IsReference reference) :=
  decidable_of_iff (Glyph.char '"' ∉ reference ∧ ¬ opener <:+: reference ∧
      ¬ closer <:+: reference)
    ⟨fun ⟨h₁, h₂, h₃⟩ => ⟨h₁, h₂, h₃⟩, fun ⟨h₁, h₂, h₃⟩ => ⟨h₁, h₂, h₃⟩⟩

/-! ## The two comments -/

/-- The reference as an attribute of the binding. -/
def referenceAttribute (reference : Text) : Attribute := ⟨templateKey, [], [], reference⟩

def lockKey : Text := "codeOutsideHTMLIsLocked"

/-- The other attribute, which says whether the template locks its code. -/
def lockAttribute (locked : Text) : Attribute := ⟨lockKey, [], [], locked⟩

/-- The other attribute, for a template that does not lock its code. -/
def unlocked : Attribute := ⟨"codeOutsideHTMLIsLocked", [], [], "false"⟩

/-- What follows the keyword in the binding. -/
def lockedRest (reference locked : Text) : Text :=
  .char ' ' :: ((referenceAttribute reference).text ++
    .char ' ' :: ((lockAttribute locked).text ++ [.char ' ']))

/-- What the binding says. -/
def lockedBody (reference locked : Text) : Text :=
  .char ' ' :: (Kind.binding.keyword ++ lockedRest reference locked)

/-- What follows the keyword in the binding. -/
def bindingRest (reference : Text) : Text :=
  .char ' ' :: ((referenceAttribute reference).text ++ .char ' ' :: (unlocked.text ++ [.char ' ']))

def bindingBody (reference : Text) : Text :=
  .char ' ' :: (Kind.binding.keyword ++ bindingRest reference)

def bindingEndBody : Text := " InstanceEnd "

theorem bindingComment_eq_wrap (reference locked : Text) :
    bindingComment reference locked = wrap (lockedBody reference locked) := by
  have hfront : ("<!-- InstanceBegin template=\"" : Text) = opener ++ .char ' ' ::
      (Kind.binding.keyword ++ .char ' ' :: (templateKey ++ [.char '=', .char '"'])) := by
    decide +kernel
  have hmiddle : ("\" codeOutsideHTMLIsLocked=\"" : Text) =
      .char '"' :: .char ' ' :: (lockAttribute []).head := by decide +kernel
  have hback : ("\" -->" : Text) = .char '"' :: .char ' ' :: closer := by decide +kernel
  have hconcat : bindingComment reference locked = ("<!-- InstanceBegin template=\"" : Text) ++
      (reference ++ (("\" codeOutsideHTMLIsLocked=\"" : Text) ++
        (locked ++ ("\" -->" : Text)))) := by
    simp [bindingComment, Text.concat]
  rw [hconcat, hfront, hmiddle, hback]
  simp [wrap, lockedBody, lockedRest, referenceAttribute, lockAttribute, Attribute.text,
    Attribute.head]

theorem bindingComment_eq (reference : Text) :
    bindingComment reference "false" = wrap (bindingBody reference) :=
  bindingComment_eq_wrap reference "false"

theorem bindingEndComment_eq : bindingEndComment = wrap bindingEndBody := by decide +kernel

theorem isBody_bindingEndBody : IsBody bindingEndBody := by decide +kernel

theorem kind?_bindingEndBody : kind? bindingEndBody = some .bindingEnd := by decide +kernel

section Locked

variable {reference locked : Text} (h : IsReference reference) (hlocked : IsReference locked)

include h hlocked

theorem isBody_lockedBody : IsBody (lockedBody reference locked) := by
  have hsplit : lockedBody reference locked =
      (.char ' ' :: (Kind.binding.keyword ++ .char ' ' :: (templateKey ++ [.char '=']))) ++
        .char '"' :: (reference ++ .char '"' :: ((.char ' ' :: (lockAttribute []).head.dropLast) ++
          .char '"' :: (locked ++ .char '"' :: [.char ' ']))) := by
    simp [lockedBody, lockedRest, referenceAttribute, lockAttribute, Attribute.text, Attribute.head]
  rw [hsplit, isBody_append_cons (by decide), isBody_append_cons (by decide),
    isBody_append_cons (by decide), isBody_append_cons (by decide)]
  exact ⟨by decide +kernel, isQuiet_iff.mpr ⟨h.no_opener, h.no_closer⟩, by decide +kernel,
    isQuiet_iff.mpr ⟨hlocked.no_opener, hlocked.no_closer⟩, by decide +kernel⟩

theorem laid_lockedRest :
    Laid [referenceAttribute reference, lockAttribute locked] (lockedRest reference locked) := by
  have hkey : templateKey = .char 't' :: templateKey.tail := by decide +kernel
  have hkey' : lockKey = .char 'c' :: lockKey.tail := by decide +kernel
  have hreference : (referenceAttribute reference).Fits :=
    ⟨⟨.char 't', templateKey.tail, hkey, by decide, by decide +kernel⟩, rfl, rfl, h.no_quote⟩
  have hlock : (lockAttribute locked).Fits :=
    ⟨⟨.char 'c', lockKey.tail, hkey', by decide, by decide +kernel⟩, rfl, rfl, hlocked.no_quote⟩
  have hblank : Text.isBlank [.char ' '] = true := by decide
  exact .cons hblank hreference (.cons hblank hlock (.blanks hblank))

/-- The comment that binds a page is a binding, and names the reference. -/
theorem classify_lockedBody : kind? (lockedBody reference locked) = some .binding ∧
    nameOf (lockedBody reference locked) = reference := by
  have hopens : Opens .binding (lockedBody reference locked) (lockedRest reference locked) :=
    ⟨[.char ' '], Kind.binding.keyword, rfl, by decide, rfl, fun g hg => by
      obtain rfl : Glyph.char ' ' = g := Option.some.inj hg
      decide⟩
  have hlower : Text.lower templateKey = templateKey := by decide +kernel
  obtain ⟨attributes, hclass, hrecords⟩ := hopens.exists_of_written rfl
    (laid_lockedRest h hlocked).written_eq ⟨_, List.mem_cons_self, hlower⟩ (Or.inl rfl)
  refine ⟨kind?_eq_some_iff.mpr ⟨attributes, hclass⟩, ?_⟩
  have hfirst : attributes.lookup templateKey = some reference := by
    have hhere : decide (Text.lower (referenceAttribute reference).key = templateKey) = true :=
      decide_eq_true hlower
    rw [hrecords.first, firstValue, List.find?_cons, hhere]
    rfl
  rw [nameOf, hclass]
  show (attributes.lookup templateKey).getD [] = reference
  rw [hfirst, Option.getD_some]

end Locked

theorem isReference_false : IsReference "false" := by decide +kernel

section Reference

variable {reference : Text} (h : IsReference reference)

include h

theorem isBody_bindingBody : IsBody (bindingBody reference) := isBody_lockedBody h isReference_false

/-- The comment that binds a new page is a binding, and names the reference. -/
theorem classify_bindingBody :
    kind? (bindingBody reference) = some .binding ∧ nameOf (bindingBody reference) = reference :=
  classify_lockedBody h isReference_false

end Reference

/-! ## A page of the two comments -/

/-- The two comments of a new page between two tags. -/
def seedText (reference : Text) : Text :=
  "<html>" ++ (wrap (bindingBody reference) ++ (wrap bindingEndBody ++ "</html>"))

/-- A page that has the two comments of a new page right inside its `html` tags, and nothing else. -/
structure IsSeed (reference : Text) (page : Page) : Prop where
  raw : page.binding.raw = wrap (bindingBody reference)
  before : page.text.take page.binding.start = "<html>"
  ended : ∃ bindingEnd, page.bindingEnd? = some bindingEnd ∧
    bindingEnd.raw = wrap bindingEndBody ∧ page.text.drop bindingEnd.stop = "</html>"
  contents : Segment.contents page.segments = []

theorem bodies_htmlTag : bodies "<html>" = [] := by decide +kernel

theorem silent_htmlTag (Q : Text → Prop) : Silent Q "<html>" := fun body hmem => by
  rw [bodies_htmlTag] at hmem
  cases hmem

section Seed

variable {reference : Text} (h : IsReference reference)

include h

theorem free_seedText : Free .page (seedText reference) := by
  intro body hmem hsaid
  have hback : bodies "</html>" = [] := by decide +kernel
  rw [seedText, bodies_insert _ (isBody_bindingBody h), bodies_wrap_append isBody_bindingEndBody,
    bodies_htmlTag, hback] at hmem
  rcases List.mem_cons.mp hmem with rfl | hmem
  · exact absurd ((says_iff_mem (classify_bindingBody h).1).mp hsaid) (by decide)
  · obtain rfl := List.mem_singleton.mp hmem
    exact absurd ((says_iff_mem kind?_bindingEndBody).mp hsaid) (by decide)

theorem exists_bindingOf_seedText :
    ∃ binding, Page.bindingOf (scan (seedText reference)) = .ok binding :=
  Page.exists_bindingOf_of_split (wrap bindingEndBody ++ "</html>") (isBody_bindingBody h)
    (classify_bindingBody h).1 (silent_htmlTag _)

theorem exists_build_seedText : ∃ page, Page.build (seedText reference) [] = .ok page ∧
    Segment.contents page.segments = [] := by
  obtain ⟨binding, hbinding⟩ := exists_bindingOf_seedText h
  have hfit : Outline.Fits .page ⟨seedText reference, []⟩ :=
    ⟨free_seedText h, List.forall_mem_nil _, List.nodup_nil⟩
  obtain ⟨segments, hbuild, hunplaced⟩ := Outline.build_text hfit
  rw [show Outline.text ⟨seedText reference, []⟩ = seedText reference from List.append_nil _]
    at hbuild
  refine ⟨_, by rw [Page.build_of_bound hbinding, hbuild]; rfl, ?_⟩
  dsimp only
  rw [← Segment.contents_map_unplaced, hunplaced, Outline.contents_segments]
  rfl

/-- There is a page of the two comments. Which parameters it is given makes no difference. -/
theorem exists_seed (params : List Param) : ∃ page params',
    Page.build (seedText reference) [] = .ok { page with params := params' } ∧
      IsSeed reference page ∧ page.params = params := by
  obtain ⟨hkind, -⟩ := classify_bindingBody h
  have hbody := isBody_bindingBody h
  obtain ⟨page, hpage, hcontents⟩ := exists_build_seedText h
  obtain ⟨hstart, hraw⟩ := Page.binding_of_split hbody hkind (silent_htmlTag _) hpage
  have hsilent : Silent (Says [.bindingEnd]) ("<html>" ++ wrap (bindingBody reference)) := by
    intro body hmem
    rw [← List.append_nil (wrap _), bodies_insert _ hbody, bodies_htmlTag] at hmem
    obtain rfl : body = bindingBody reference := by simpa using hmem
    rw [says_iff_mem hkind]
    decide
  have hsplit : seedText reference = ("<html>" ++ wrap (bindingBody reference)) ++
      (wrap bindingEndBody ++ "</html>") := (List.append_assoc _ _ _).symm
  have hended := Page.exists_bindingEnd_of_split isBody_bindingEndBody kind?_bindingEndBody hsilent
    (hsplit ▸ hpage) (by
      rw [hstart, List.length_append, length_wrap]
      omega)
  refine ⟨{ page with params := params }, page.params, hpage, ⟨hraw, ?_, hended, hcontents⟩, rfl⟩
  dsimp only
  rw [(Page.bindingEndOf_of_build hpage).1, hstart, seedText, List.take_left]

end Seed

namespace IsSeed

variable {reference : Text} {page : Page}

theorem bindingAnchor_eq (h : IsSeed reference page) :
    Merge.bindingAnchor page = ⟨some htmlTag, 1, []⟩ :=
  Merge.bindingAnchor_eq (by rw [h.before, List.append_nil]) rfl (by decide +kernel)

theorem ended_eq (h : IsSeed reference page) (template : Template) :
    Merge.ended template page = (Merge.assemble template [] page.params).1.placeBindingEnd
      bindingEndComment ⟨some htmlTag, 1, []⟩ := by
  obtain ⟨bindingEnd, hend, hraw, hafter⟩ := h.ended
  have hanchor : Merge.bindingEndAnchor page bindingEnd = ⟨some htmlTag, 1, []⟩ :=
    Merge.bindingEndAnchor_eq (v := "</html>") (by rw [hafter, List.nil_append]) rfl
      (by decide +kernel)
  rw [Merge.ended, hend]
  dsimp only
  rw [hanchor, hraw, h.contents, bindingEndComment_eq]

end IsSeed

/-- To make a new page of an unlocked template is to merge a page of the two comments that has the
parameters of the template. -/
theorem create_eq_merge {template : Template} (hlocked : locked template = "false")
    {reference : Text} {page : Page} (h : IsSeed reference page)
    (hparams : page.params = template.params) :
    create template reference = (merge template page).text := by
  rw [Merge.text_merge_eq, h.ended_eq, h.raw, h.bindingAnchor_eq, ← bindingComment_eq, hparams,
    create, hlocked]

/-! ## A page between the two comments -/

/-- A text between the two comments of a new page. -/
def enclose (reference t : Text) : Text :=
  wrap (bindingBody reference) ++ (t ++ wrap bindingEndBody)

section Enclose

variable {reference t : Text} (h : IsReference reference)

include h

theorem bodies_enclose :
    bodies (enclose reference t) = bindingBody reference :: (bodies t ++ [bindingEndBody]) := by
  rw [enclose, bodies_wrap_append (isBody_bindingBody h), ← List.append_nil (wrap bindingEndBody),
    bodies_insert _ isBody_bindingEndBody, bodies_nil]

/-- The comments set no parameters. -/
theorem setsAlike_enclose : Merge.SetsAlike t (enclose reference t) where
  of_param body hbody hkind := by
    rw [bodies_enclose h, List.mem_cons, List.mem_append, List.mem_singleton] at hbody
    rcases hbody with rfl | hbody | rfl
    · rw [(classify_bindingBody h).1] at hkind
      cases hkind
    · exact hbody
    · rw [kind?_bindingEndBody] at hkind
      cases hkind
  of_bare body hbody _ := by
    rw [bodies_enclose h]
    exact List.mem_cons_of_mem _ (List.mem_append_left _ hbody)

/-- The comments go to the ends of what such a page is merged with, as they stand at its own. -/
theorem text_placeComments_enclose (ht : Silent (Says [.bindingEnd]) t) {page : Page} {source : Text}
    (hpage : Page.build (enclose reference t) source = .ok page) (a : Assembly) :
    (Merge.placeComments page a).text = enclose reference a.text := by
  obtain ⟨hkind, -⟩ := classify_bindingBody h
  have hbody := isBody_bindingBody h
  obtain ⟨htext, -⟩ := Page.bindingEndOf_of_build hpage
  have hfirst : enclose reference t =
      [] ++ (wrap (bindingBody reference) ++ (t ++ wrap bindingEndBody)) := rfl
  obtain ⟨hstart, hraw⟩ := Page.binding_of_split hbody hkind silent_nil (hfirst ▸ hpage)
  have hsilent : Silent (Says [.bindingEnd]) (wrap (bindingBody reference) ++ t) := by
    intro body hmem
    rcases List.mem_cons.mp (bodies_wrap_append hbody t ▸ hmem) with rfl | hmem
    · rw [says_iff_mem hkind]
      decide
    · exact ht body hmem
  have hsplit : enclose reference t =
      (wrap (bindingBody reference) ++ t) ++ (wrap bindingEndBody ++ []) := by simp [enclose]
  obtain ⟨bindingEnd, hend, hrawEnd, hafter⟩ := Page.exists_bindingEnd_of_split
    isBody_bindingEndBody kind?_bindingEndBody hsilent (hsplit ▸ hpage) (by
      rw [hstart, List.length_append, length_wrap, List.length_nil]
      omega)
  have hanchor : Merge.bindingAnchor page = ⟨none, 0, []⟩ := by
    rw [Merge.bindingAnchor, hstart]
    rfl
  have hanchorEnd : Merge.bindingEndAnchor page bindingEnd = ⟨none, 0, []⟩ := by
    rw [Merge.bindingEndAnchor, hafter]
    rfl
  rw [Merge.placeComments, hend]
  dsimp only
  rw [hanchor, hanchorEnd, hraw, hrawEnd, Assembly.placeBinding, Assembly.placeBindingEnd]
  simp [enclose]

end Enclose

end NewPage

end Stencil

import Stencil.Proofs.NewPage.BindingComments

/-!
# Reading a binding comment back

The comment that binds a page is written without escaping anything. Read back, it names the reference
it was written with just when that reference holds no quote and no delimiter of comments
(`readBinding?_bindingComment_iff`). One direction is that the comment is then read as it was
written. The other does not look at what else the reference may open: the name of a binding stands
between quotes inside of one comment, so whatever is read has none of these in it
(`isReference_of_readBinding?`).
-/

namespace Stencil.NewPage

open Marker

/-- What is read as the reference of a binding stands in a comment as an attribute. -/
theorem exists_attribute_of_readBinding? {t name : Text} (h : readBinding? t = some name) :
    ∃ (body : Text) (a : Attribute), IsBody body ∧ a.Fits ∧ a.value = name ∧ a.text <:+: body := by
  obtain ⟨token, hfirst, rfl⟩ := Option.map_eq_some_iff.mp h
  have hfound := List.find?_some hfirst
  have hkind : token.kind = .binding := of_decide_eq_true hfound
  obtain ⟨c, hc, htoken⟩ := List.mem_filterMap.mp (List.mem_of_find?_eq_some hfirst)
  obtain ⟨⟨kind, attributes⟩, hclass, rfl⟩ := Option.map_eq_some_iff.mp htoken
  obtain rfl : kind = .binding := hkind
  obtain ⟨word, rest, -, -, hcarries⟩ := classify_eq_some_iff.mp hclass
  have hsome : (attributes.lookup templateKey).isSome = true := hcarries.2.1
  obtain ⟨name, hname⟩ := Option.isSome_iff_exists.mp hsome
  obtain ⟨before, behind, hsplit, -⟩ := List.lookup_eq_some_iff.mp hname
  obtain ⟨a, ha, hvalue, hwithin⟩ := exists_of_mem_classify hclass
    (hsplit ▸ List.mem_append_right before List.mem_cons_self)
  refine ⟨c.body, a, isBody_of_mem_bodies (List.mem_map_of_mem hc), ha, ?_, hwithin⟩
  show a.value = (attributes.lookup templateKey).getD []
  rw [hname, hvalue, Option.getD_some]

theorem isReference_of_readBinding? {t name : Text} (h : readBinding? t = some name) :
    IsReference name := by
  obtain ⟨body, a, hbody, ha, rfl, hwithin⟩ := exists_attribute_of_readBinding? h
  obtain ⟨hopener, hcloser⟩ := isQuiet_iff.mp (Attribute.isQuiet_value hbody hwithin)
  exact ⟨ha.no_quote, hopener, hcloser⟩

/-- A text that is one binding and nothing else names what the binding names. -/
theorem readBinding?_wrap {body : Text} (hbody : IsBody body) (hkind : kind? body = some .binding) :
    readBinding? (wrap body) = some (nameOf body) := by
  have hcomments : comments (wrap body) = [⟨0, body⟩] := by
    rw [← List.append_nil (wrap body), comments, commentsFrom_wrap 0 hbody]
    rfl
  obtain ⟨token, htoken, htokenKind⟩ :=
    exists_tokenOf? (Position.lineStarts (wrap body)) (c := ⟨0, body⟩) hkind
  obtain ⟨-, hname, -⟩ := tokenOf?_eq_some htoken
  rw [readBinding?, scan, hcomments, List.filterMap_cons, htoken, hname]
  simp [firstBinding?, htokenKind]

/-- What a binding comment was written with is read back from it just when it holds no quote and no
delimiter of comments, whatever else the comment says about the template. -/
theorem readBinding?_bindingComment_iff {locked : Text} (hlocked : IsReference locked)
    (reference : Text) :
    readBinding? (bindingComment reference locked) = some reference ↔ IsReference reference := by
  refine ⟨isReference_of_readBinding?, fun h => ?_⟩
  obtain ⟨hkind, hname⟩ := classify_lockedBody h hlocked
  rw [bindingComment_eq_wrap, readBinding?_wrap (isBody_lockedBody h hlocked) hkind, hname]

/-- A reference that ends the comment and opens another one with a binding of its own. -/
def craftedReference : Text := "/t.dwt\" --><!-- InstanceBegin template=\"/u.dwt"

/-- Pieces of delimiters do no harm, since quotes keep them apart from what follows. -/
theorem readBinding?_craftedReference : IsReference "--" ∧
    readBinding? (bindingComment "><!-" "--") = some "><!-" ∧
      readBinding? (bindingComment craftedReference "--") ≠ some craftedReference := by
  have hlocked : IsReference "--" := by decide +kernel
  have hiff := fun reference => readBinding?_bindingComment_iff hlocked reference
  exact ⟨hlocked, (hiff _).mpr (by decide +kernel), fun h =>
    absurd ((hiff _).mp h) (by decide +kernel)⟩

end Stencil.NewPage

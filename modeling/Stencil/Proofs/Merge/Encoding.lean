import Stencil.Proofs.Merge.History
import Stencil.Proofs.Text.Bytes

/-!
# Merged pages as bytes

A page is read from bytes, merged as text and written as bytes again. Pieces of two texts come
together in it, but never two stray bytes that have not stood together before: between any two pieces
stands a delimiter of a comment or of a tag (`isFaithful_insert`). So a merged page is read back as it
was merged (`decode_encode_merge`), whatever stray bytes the template and the page hold.
-/

namespace Stencil

open Marker
open Assembly (htmlTag)
open Text (IsFaithful)

/-! ## Comments -/

namespace Text

theorem isPlain_of_code {t : Text} (h : ∀ g ∈ t, g.code < 0xdc00) : t.isPlain = true := by
  refine List.all_eq_true.mpr fun g hg => ?_
  cases g with
  | char c => rfl
  | byte b high =>
      have hcode := h _ hg
      rw [Glyph.code] at hcode
      omega

theorem isPlain_of_isBlank {t : Text} (h : t.isBlank = true) : t.isPlain = true := by
  refine isPlain_of_code fun g hg => ?_
  have hblank := List.all_eq_true.mp h g hg
  simp only [Glyph.isBlank, Bool.or_eq_true, Bool.and_eq_true, decide_eq_true_eq,
    beq_iff_eq] at hblank
  omega

end Text

namespace Marker

theorem IsWord.isPlain {word : Text} (h : IsWord word) : word.isPlain = true := by
  refine Text.isPlain_of_code fun g hg => ?_
  have hletter := h.letters g hg
  simp only [Glyph.isLetter, Bool.or_eq_true, Bool.and_eq_true, decide_eq_true_eq] at hletter
  omega

/-- A comment divides what stands before it from what stands behind it. -/
theorem isFaithful_insert (t body u : Text) : IsFaithful (t ++ (wrap body ++ u)) ↔
    IsFaithful t ∧ IsFaithful body ∧ IsFaithful u := by
  have htext : t ++ (wrap body ++ u) = t ++ .char '<' :: .char '!' :: .char '-' :: .char '-' ::
      (body ++ .char '-' :: .char '-' :: .char '>' :: u) := by
    simp [wrap, opener, closer]
  rw [htext, Text.isFaithful_append_char]
  exact and_congr_right' (Text.isFaithful_append_char body '-' _)

/-- A marker of a text says nothing that the text does not hold. -/
theorem exists_isFaithful_body {text : Text} (h : IsFaithful text) {token : Token}
    (htoken : token ∈ scan text) : ∃ body, token.raw = wrap body ∧ IsFaithful body := by
  obtain ⟨body, hbody, -, hraw⟩ := exists_body_of_mem_tokensFrom htoken
  obtain ⟨-, u, v, rfl⟩ := exists_text_of_mem_bodies hbody
  exact ⟨body, hraw, ((isFaithful_insert u body v).mp h).2.1⟩

theorem isFaithful_rename {body word rest : Text} (h : firstWord? body = some (word, rest))
    (hbody : IsFaithful body) (kind : Kind) : IsFaithful (rename kind.keyword body) := by
  obtain ⟨gap, rfl, hgap, hword, hrest⟩ := firstWord?_eq_some_iff.mp h
  rw [rename_eq hgap hword hrest]
  rw [Text.isFaithful_plain_append (Text.isPlain_of_isBlank hgap),
    Text.isFaithful_plain_append hword.isPlain] at hbody
  rwa [Text.isFaithful_plain_append (Text.isPlain_of_isBlank hgap),
    Text.isFaithful_plain_append kind.isWord_keyword.isPlain]

end Marker

theorem Outline.isFaithful_text (o : Outline) : IsFaithful o.text ↔ IsFaithful o.head ∧
    ∀ b ∈ o.blocks, IsFaithful b.opening ∧ IsFaithful b.content ∧ IsFaithful b.closing ∧
      IsFaithful b.behind := by
  obtain ⟨head, blocks⟩ := o
  rw [Outline.text]
  induction blocks generalizing head with
  | nil => simp
  | cons b blocks ih =>
      have hrest := ih b.behind
      dsimp only at hrest ⊢
      rw [append_textFrom_cons, isFaithful_insert, isFaithful_insert, hrest, List.forall_mem_cons]
      tauto

/-! ## Laying out a template -/

namespace Skeleton

/-- Where no parameter has a value, converting only changes keywords. -/
theorem isFaithful_convertBody {body : Text} (h : IsFaithful body) :
    IsFaithful (convertBody [] body) := by
  rw [convertBody]
  split
  · next hkind =>
    obtain ⟨word, rest, hfirst, -⟩ := exists_firstWord?_of_kind? hkind
    exact isFaithful_rename hfirst h _
  · next hkind =>
    obtain ⟨word, rest, hfirst, -⟩ := exists_firstWord?_of_kind? hkind
    exact isFaithful_rename hfirst h _
  · next hkind =>
    obtain ⟨word, rest, hfirst, -⟩ := exists_firstWord?_of_kind? hkind
    exact isFaithful_rename hfirst h _
  · exact h

theorem isFaithful_converted {t : Text} (h : IsFaithful t) : IsFaithful (converted [] t) := by
  induction t using commentInduction with
  | plain t ht => rwa [converted_eq_self [] ht]
  | comment u body v hu hbody ih =>
      obtain ⟨hu', hbody', hv⟩ := (isFaithful_insert u body v).mp h
      rw [converted_insert [] u hbody, converted_eq_self [] hu]
      exact (isFaithful_insert _ _ _).mpr ⟨hu', isFaithful_convertBody hbody', ih hv⟩

end Skeleton

namespace Merge

variable {text source text' source' : Text} {template : Template} {page : Page}

theorem isFaithful_contents (hpage : Page.build text source = .ok page) (h : IsFaithful text) :
    ∀ entry ∈ Segment.contents page.segments, IsFaithful entry.2 := by
  obtain ⟨o, -, rfl, hsegments⟩ := exists_outline_of_page hpage
  intro entry hentry
  rw [← Segment.contents_map_unplaced, hsegments, Outline.contents_segments] at hentry
  obtain ⟨b, hb, rfl⟩ := List.mem_map.mp hentry
  exact (((Outline.isFaithful_text o).mp h).2 b hb).2.1

theorem isFaithful_layRegion {contents : List (Text × Text)}
    (hcontents : ∀ entry ∈ contents, IsFaithful entry.2) {name default : Text}
    (hdefault : IsFaithful default) : IsFaithful (layRegion contents name default).1 := by
  rw [layRegion]
  split
  · next current hcurrent =>
    obtain ⟨entry, hentry, rfl⟩ := Option.map_eq_some_iff.mp hcurrent
    exact hcontents entry (List.mem_filter.mp (List.mem_of_getLast? hentry)).1
  · exact hdefault

theorem isFaithful_assemble (htemplate : Template.build text source = .ok template)
    (hundescribed : ∀ segment ∈ template.segments, segment.isRegion = false →
      Skeleton.infoForm.findAll segment.text = []) {contents : List (Text × Text)}
    (htext : IsFaithful text) (hcontents : ∀ entry ∈ contents, IsFaithful entry.2) :
    IsFaithful (assemble template contents []).1.text := by
  obtain ⟨o, hfit, rfl, hsegments⟩ := exists_outline_of_template htemplate
  obtain ⟨hhead, hblocks⟩ := (Outline.isFaithful_text o).mp htext
  have hlays := lays_assemble hfit hsegments hundescribed (List.forall_mem_nil _) contents
  rw [hlays.text_eq, List.flatten_nil, List.append_nil, Outline.isFaithful_text]
  refine ⟨Skeleton.isFaithful_converted hhead, fun laid hlaid => ?_⟩
  obtain ⟨b, hb, rfl⟩ := List.mem_map.mp hlaid
  obtain ⟨hopening, hcontent, hclosing, hbehind⟩ := hblocks b hb
  exact ⟨Skeleton.isFaithful_convertBody hopening, isFaithful_layRegion hcontents hcontent,
    Skeleton.isFaithful_convertBody hclosing, Skeleton.isFaithful_converted hbehind⟩

/-- Pages bound by the same comment belong to the same template. -/
theorem templateName_eq {again : Page} (hpage : Page.build text source = .ok page)
    (hagain : Page.build text' source' = .ok again)
    (hraw : again.binding.raw = page.binding.raw) : again.templateName = page.templateName := by
  obtain ⟨body, -, -, hname, hwrap⟩ :=
    Page.exists_body_of_bindingOf (Page.bindingOf_of_build hpage)
  obtain ⟨body', -, -, hname', hwrap'⟩ :=
    Page.exists_body_of_bindingOf (Page.bindingOf_of_build hagain)
  have hbody : body' = body := wrap_inj (hwrap'.symm.trans (hraw.trans hwrap))
  rw [Page.templateName, Page.templateName, Page.templateRef, Page.templateRef, ← hname,
    ← hname', hbody]

section Plain

variable (htemplate : Template.build text source = .ok template) (h : IsPlain text template)
  (hpage : Page.build text' source' = .ok page) (hbound : IsBoundAround page)

include htemplate h hpage hbound

theorem isFaithful_merge (htext : IsFaithful text) (htext' : IsFaithful text') :
    IsFaithful (merge template page).text := by
  obtain ⟨front, mid, back, gap, gapEnd, hmade⟩ := exists_made htemplate (h.enclosed hbound)
  obtain ⟨x, rfl⟩ := Tag.exists_end hmade.framed.starts
  obtain ⟨v, rfl⟩ := Tag.exists_closing_of_zero_mem
    (by rw [hmade.back_closings]; exact List.mem_cons_self)
  have hlaid : IsFaithful (x ++ .char '>' :: (mid ++ .char '<' :: .char '/' :: v)) := by
    have hassemble := isFaithful_assemble htemplate h.undescribed htext
      (isFaithful_contents hpage htext')
    have htext_eq := hmade.framed.text_eq
    rw [List.append_assoc, List.singleton_append] at htext_eq
    exact htext_eq ▸ hassemble
  rw [Text.isFaithful_append_char, Text.isFaithful_append_char] at hlaid
  obtain ⟨hx, hmid, hv⟩ := hlaid
  have hgap := Text.isPlain_of_isBlank hmade.gap_isBlank
  have hgapEnd := Text.isPlain_of_isBlank hmade.gapEnd_isBlank
  have hbinding := Page.firstBinding?_of_bindingOf (Page.bindingOf_of_build hpage)
  obtain ⟨body, hraw, hbody⟩ := exists_isFaithful_body htext' (List.mem_of_find?_eq_some hbinding)
  have hrest : IsFaithful (mid ++ (ending { page with params := [] } gapEnd ++
      .char '<' :: .char '/' :: v)) := by
    rcases Option.eq_none_or_eq_some page.bindingEnd? with hend | ⟨bindingEnd, hend⟩
    · have hending : ending { page with params := [] } gapEnd = [] := by rw [ending, hend]; rfl
      rw [hending, List.nil_append, Text.isFaithful_append_char]
      exact ⟨hmid, hv⟩
    · obtain ⟨-, hfind, -⟩ := Page.bindingEndOf_of_build hpage
      obtain ⟨bodyEnd, hrawEnd, hbodyEnd⟩ :=
        exists_isFaithful_body htext' (List.mem_of_find?_eq_some (hfind.symm.trans hend))
      have hending : ending { page with params := [] } gapEnd = wrap bodyEnd ++ gapEnd := by
        rw [ending, hend, ← hrawEnd]
        rfl
      rw [hending, List.append_assoc, isFaithful_insert, Text.isFaithful_plain_append hgapEnd]
      exact ⟨hmid, hbodyEnd, hv⟩
  rw [← merge_params htemplate h [],
    (text_merge_of_framed hmade.framed hmade.anchor hmade.endAnchor).2, hraw]
  have hmerged : (x ++ [Glyph.char '>']) ++ ((gap ++ wrap body) ++ (mid ++
      (ending { page with params := [] } gapEnd ++ .char '<' :: .char '/' :: v))) =
        x ++ .char '>' :: (gap ++ (wrap body ++ (mid ++
          (ending { page with params := [] } gapEnd ++ .char '<' :: .char '/' :: v)))) := by
    simp
  rw [hmerged, Text.isFaithful_append_char, Text.isFaithful_plain_append hgap]
  exact ⟨hx, (isFaithful_insert [] body _).mpr ⟨trivial, hbody, hrest⟩⟩

/-- A merged page is bound as it was, and merging it again does not change it. -/
theorem exists_again (target : Text) : ∃ again,
    Page.build (merge template page).text target = .ok again ∧
      again.templateName = page.templateName ∧
      (merge template again).text = (merge template page).text := by
  have hpage' : Page.build text' source' =
      .ok { ({ page with params := [] } : Page) with params := page.params } := hpage
  have henclosed := h.enclosed hbound
  obtain ⟨front, mid, back, gap, gapEnd, hmade⟩ := exists_made htemplate henclosed
  obtain ⟨again, hagain, hraw, hcontents⟩ :=
    exists_page htemplate hpage' (henclosed.clean hmade) target
  refine ⟨again, by rw [← merge_params htemplate h []]; exact hagain, ?_, ?_⟩
  · rw [merge_params htemplate h []] at hagain
    exact templateName_eq hpage hagain hraw
  · have hparams : (merge template { page with params := [] }).text = (merge template page).text :=
      merge_params htemplate h []
    rw [← hparams]
    refine text_merge_again htemplate hpage' henclosed hmade hagain hraw hmade.framed ?_
    refine assemble_eq_of_lacks htemplate (h.lacks.mono (by decide)) fun entry hentry => ?_
    rw [layRegion_eq hagain, layRegion_eq hpage, region?_of_contents (nodup_contents htemplate)
      hcontents hentry, Option.getD_some]

end Plain

/-- Read from its bytes, a merged page is as it was merged. -/
theorem decode_encode_merge {bytes bytes' : List UInt8}
    (htemplate : Template.build (Text.decode bytes) source = .ok template)
    (h : IsPlain (Text.decode bytes) template)
    (hpage : Page.build (Text.decode bytes') source' = .ok page) (hbound : IsBoundAround page) :
    Text.decode (Text.encode (merge template page).text) = (merge template page).text :=
  Text.decode_encode_of_isFaithful (isFaithful_merge htemplate h hpage hbound
    (Text.isFaithful_decode bytes) (Text.isFaithful_decode bytes'))

end Merge

end Stencil

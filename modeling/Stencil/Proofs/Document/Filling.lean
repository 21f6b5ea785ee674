import Stencil.Proofs.Document.Outline

/-!
# Writing into the plain text of a document

An outline *gains* a text when it is written somewhere into one of the plain stretches. A text that
is no region marker leaves the document one with the same regions (`Gains.fits`,
`Gains.contents_eq`). Which places are in plain stretches is read off the glyphs beside them, since
markers hold no angle brackets but those of their delimiters: a place before `</` always is
(`exists_gains_of_closing`), and one behind a `>` is when no region has begun before it
(`split_head_of_start`).
-/

namespace Stencil

open Marker

/-- A text in which every `<` begins a comment. -/
def Text.Sealed (t : Text) : Prop := ∀ u v : Text, t = u ++ .char '<' :: v → v.head? = some (.char '!')

theorem Text.sealed_nil : Text.Sealed [] := fun u v h => by
  cases u <;> cases h

/-- A closing tag does not begin in a text where each `<` begins a comment. -/
theorem Text.Sealed.not_closing {t : Text} (h : t.Sealed) {u v : Text} :
    t ≠ u ++ .char '<' :: .char '/' :: v := fun heq => by
  have := h u _ heq
  cases this

theorem Text.Sealed.split_closing {t x u v : Text} (h : t.Sealed)
    (heq : t ++ x = u ++ .char '<' :: .char '/' :: v) :
    ∃ u', u = t ++ u' ∧ x = u' ++ .char '<' :: .char '/' :: v := by
  rcases List.append_eq_append_iff.mp heq with ⟨u', rfl, hx⟩ | ⟨r, rfl, hr⟩
  · exact ⟨u', rfl, hx⟩
  · cases r with
    | nil => exact ⟨[], by simp, by simpa using hr.symm⟩
    | cons a r =>
        obtain ⟨rfl, htail⟩ := List.cons.inj hr
        have hhead := h u r rfl
        cases r with
        | nil => cases hhead
        | cons b r =>
            rw [← (List.cons.inj htail).1] at hhead
            cases hhead

namespace Marker

theorem sealed_wrap {body : Text} (h : IsBare body) : Text.Sealed (wrap body) := by
  intro u v heq
  cases u with
  | nil =>
      rw [List.nil_append, wrap, opener] at heq
      rw [← (List.cons.inj heq).2]
      rfl
  | cons a u =>
      have hmem : Glyph.char '<' ∈ [Glyph.char '!', .char '-', .char '-'] ++ (body ++ closer) := by
        have htail : [Glyph.char '!', .char '-', .char '-'] ++ (body ++ closer) =
            u ++ .char '<' :: v := by
          rw [wrap, opener] at heq
          simpa using (List.cons.inj heq).2
        rw [htail]
        simp
      simp [closer, h.1] at hmem

/-- A marker is passed over as a whole or not at all. -/
theorem eq_wrap_of_end {body u v : Text} (h : IsBare body)
    (heq : wrap body = (u ++ [.char '>']) ++ v) : v = [] := by
  have hwrap : wrap body = (opener ++ (body ++ [.char '-', .char '-'])) ++ .char '>' :: [] := by
    simp [wrap, closer]
  have hnot : Glyph.char '>' ∉ opener ++ (body ++ [Glyph.char '-', .char '-']) := by
    simp [opener, h.2]
  rw [hwrap, List.append_assoc u] at heq
  obtain ⟨x, rfl, hx⟩ := Text.append_eq_append_cons_right hnot heq
  cases x with
  | nil => exact (List.cons.inj hx).2.symm
  | cons a x => simp at hx

/-- A marker is not cut behind a `>`. -/
theorem wrap_ne_of_end {body t x q q' : Text} (h : IsBare body) (ht : t ++ [.char '>'] = x ++ q)
    (hq : q ≠ []) (hq' : q' ≠ []) : wrap body ≠ q ++ q' := by
  intro hwrap
  rcases List.eq_nil_or_concat q with rfl | ⟨r, g, rfl⟩
  · exact hq rfl
  · rw [List.concat_eq_append] at ht hwrap
    rw [← List.append_assoc] at ht
    obtain rfl : Glyph.char '>' = g := by simpa using (List.append_inj' ht rfl).2
    exact hq' (eq_wrap_of_end h hwrap)

/-- A marker is not cut in front of `</`. -/
theorem wrap_ne_of_closing {body u q q' v : Text} (h : IsBare body)
    (hu : .char '<' :: .char '/' :: u = q' ++ v) (hq' : q' ≠ []) : wrap body ≠ q ++ q' := by
  intro hwrap
  obtain ⟨g, r, rfl⟩ := List.exists_cons_of_ne_nil hq'
  obtain ⟨rfl, hr⟩ := List.cons.inj hu
  have hopens := sealed_wrap h q r hwrap
  cases r with
  | nil => cases hopens
  | cons a r => exact absurd ((List.cons.inj hr).1.trans (Option.some.inj hopens)) (by decide)

end Marker

namespace Outline

/-- `o'` is `o` with `w` written into one of its plain stretches. -/
inductive Gains (w : Text) : Outline → Outline → Prop
  | head (left right : Text) (blocks : List Block) :
      Gains w ⟨left ++ right, blocks⟩ ⟨left ++ (w ++ right), blocks⟩
  | behind (head opening content closing : Text) {behind behind' : Text}
      {blocks blocks' : List Block} :
      Gains w ⟨behind, blocks⟩ ⟨behind', blocks'⟩ →
      Gains w ⟨head, ⟨opening, content, closing, behind⟩ :: blocks⟩
        ⟨head, ⟨opening, content, closing, behind'⟩ :: blocks'⟩

section Gains

variable {w : Text} {o o' : Outline}

theorem Gains.map_contents (h : Gains w o o') :
    (o'.blocks.map fun b => (b.name, b.content)) = o.blocks.map fun b => (b.name, b.content) := by
  induction h with
  | head left right blocks => rfl
  | behind head opening content closing _ ih =>
      rw [List.map_cons, List.map_cons, ih]
      rfl

theorem Gains.map_name (h : Gains w o o') : o'.blocks.map Block.name = o.blocks.map Block.name := by
  have := congrArg (List.map Prod.fst) h.map_contents
  rwa [List.map_map, List.map_map] at this

theorem Gains.silent_head {Q : Text → Prop} {body : Text} (h : Gains w o o') (hw : IsInlay body w)
    (hbody : ¬ Q body) (hhead : Silent Q o.head) : Silent Q o'.head := by
  cases h with
  | head left right blocks => exact Silent.inlay hhead hw hbody
  | behind => exact hhead

theorem Gains.fits {side : Side} {body : Text} (h : Gains w o o') (hw : IsInlay body w)
    (hbody : ¬ Says (regionKinds side) body) (hfits : o.Fits side) : o'.Fits side := by
  refine ⟨h.silent_head hw hbody hfits.head_free, ?_, h.map_name ▸ hfits.nodup⟩
  have hblocks := hfits.blocks_fit
  clear hfits
  induction h with
  | head left right blocks => exact hblocks
  | behind head opening content closing h ih =>
      intro b hb
      have hfirst := hblocks _ List.mem_cons_self
      rcases List.mem_cons.mp hb with rfl | hb
      · exact { hfirst with behind_free := h.silent_head hw hbody hfirst.behind_free }
      · exact ih (fun b hb => hblocks b (List.mem_cons_of_mem _ hb)) b hb

/-- The last plain stretch ends with the text. -/
theorem exists_gains_at_end (w : Text) (o : Outline) :
    ∃ o', Gains w o o' ∧ o'.text = o.text ++ w := by
  obtain ⟨head, blocks⟩ := o
  induction blocks generalizing head with
  | nil => exact ⟨⟨head ++ w, []⟩, by simpa using Gains.head (w := w) head [] [], by simp [text]⟩
  | cons b blocks ih =>
      obtain ⟨⟨behind', blocks'⟩, hgains, htext⟩ := ih b.behind
      refine ⟨_, .behind head b.opening b.content b.closing hgains, ?_⟩
      simp only [text] at htext
      simp [text, Block.text, htext]

end Gains

/-! ## Places in plain stretches -/

/-- All markers of an outline hold no angle brackets. -/
def Bare (blocks : List Block) : Prop := ∀ b ∈ blocks, IsBare b.opening ∧ IsBare b.closing

/-- A place before `</` is in a plain stretch. -/
theorem exists_gains_of_closing {blocks : List Block} (hbare : Bare blocks) (w : Text) :
    ∀ {lead plain : Text} {before behind : List Segment} {u v : Text}, Text.Sealed lead →
      segmentsFrom lead plain blocks =
        before ++ .literal (u ++ .char '<' :: .char '/' :: v) :: behind →
      ∃ o', Gains w ⟨plain, blocks⟩ o' ∧ segmentsFrom lead o'.head o'.blocks =
        before ++ .literal (u ++ (w ++ .char '<' :: .char '/' :: v)) :: behind := by
  induction blocks with
  | nil =>
      intro lead plain before behind u v hlead heq
      rw [segmentsFrom, Segment.literals] at heq
      split at heq
      · simp at heq
      · obtain ⟨rfl, hliteral, rfl⟩ : before = [] ∧ lead ++ plain = u ++ .char '<' :: .char '/' :: v ∧
            behind = [] := by
          cases before with
          | nil => simpa using heq
          | cons s before => simp at heq
        obtain ⟨u', rfl, rfl⟩ := hlead.split_closing hliteral
        refine ⟨_, .head u' _ [], ?_⟩
        rw [segmentsFrom, Segment.literals, if_neg (by simp)]
        simp
  | cons b blocks ih =>
      intro lead plain before behind u v hlead heq
      obtain ⟨hopening, hclosing⟩ := hbare b List.mem_cons_self
      rw [segmentsFrom] at heq
      rcases before with _ | ⟨s, _ | ⟨s', before⟩⟩
      · obtain ⟨hliteral, rfl⟩ := List.cons.inj heq
        obtain ⟨u', rfl, hplain⟩ := hlead.split_closing (Segment.literal.inj hliteral)
        rcases List.append_eq_append_iff.mp hplain with ⟨r, -, hr⟩ | ⟨r, rfl, hr⟩
        · exact absurd hr (sealed_wrap hopening).not_closing
        · refine ⟨_, .head u' r _, ?_⟩
          rw [segmentsFrom, hr]
          simp
      · simp at heq
      · obtain ⟨rfl, htail⟩ := List.cons.inj heq
        obtain ⟨rfl, hrest⟩ := List.cons.inj htail
        obtain ⟨⟨behind', blocks'⟩, hgains, hsegments⟩ :=
          ih (fun b' hb' => hbare b' (List.mem_cons_of_mem _ hb')) (sealed_wrap hclosing) hrest
        refine ⟨_, .behind plain b.opening b.content b.closing hgains, ?_⟩
        rw [segmentsFrom]
        dsimp only at hsegments ⊢
        rw [hsegments]
        rfl

/-- A place behind `>` is in the head if no region has begun before it. -/
theorem split_head_of_start {o : Outline} (hbare : Bare o.blocks) {Q : Text → Prop}
    (hbody : ∀ b ∈ o.blocks, IsBody b.opening ∧ Q b.opening) {before behind : List Segment}
    {u v : Text} (heq : o.segments = before ++ .literal ((u ++ [.char '>']) ++ v) :: behind)
    (hsilent : Silent Q (Segment.join before ++ (u ++ [.char '>']))) :
    before = [] ∧ ∃ right, o.head = (u ++ [.char '>']) ++ right ∧
      v ++ Segment.join behind = right ++ textFrom o.blocks := by
  obtain ⟨head, blocks⟩ := o
  cases blocks with
  | nil =>
      rw [segments, segmentsFrom, Segment.literals] at heq
      split at heq
      · simp at heq
      · cases before with
        | nil =>
            simp only [List.nil_append, List.cons.injEq, Segment.literal.injEq] at heq
            obtain ⟨rfl, rfl⟩ := heq
            exact ⟨rfl, v, rfl, rfl⟩
        | cons s before => simp at heq
  | cons b blocks =>
      -- a place behind the begin marker of the first region would not be in silence
      have hfirst : ∀ x, Segment.join before ++ (u ++ [.char '>']) ≠ head ++ (wrap b.opening ++ x) := by
        intro x hx
        obtain ⟨hisBody, hQ⟩ := hbody b List.mem_cons_self
        rw [hx] at hsilent
        exact hsilent b.opening (by rw [bodies_insert _ hisBody]; simp) hQ
      rw [segments, segmentsFrom] at heq
      cases before with
      | nil =>
          obtain ⟨hliteral, rfl⟩ := List.cons.inj heq
          have hliteral := Segment.literal.inj hliteral
          rw [List.nil_append] at hliteral
          rcases List.append_eq_append_iff.mp hliteral with ⟨r, hu, hr⟩ | ⟨r, rfl, rfl⟩
          · rcases List.eq_nil_or_concat r with rfl | ⟨r', a, rfl⟩
            · refine ⟨rfl, [], by simpa using hu.symm, ?_⟩
              rw [List.nil_append] at hr
              simp [← hr, join_segmentsFrom, Segment.text, Block.text]
            · -- the place would be behind the begin marker
              rw [List.concat_eq_append, ← List.append_assoc] at hu
              obtain ⟨hu, ha⟩ := List.append_inj' hu rfl
              rw [List.concat_eq_append, ← ha] at hr
              obtain rfl := eq_wrap_of_end (hbare b List.mem_cons_self).1 hr
              refine absurd ?_ (hfirst [])
              simp [hu, hr]
          · refine ⟨rfl, r, rfl, ?_⟩
            simp [join_segmentsFrom, Segment.text, Block.text]
      | cons s before =>
          obtain ⟨rfl, -⟩ := List.cons.inj heq
          refine absurd ?_ (hfirst (Segment.join before ++ (u ++ [.char '>'])))
          simp [Segment.text]

end Outline

end Stencil

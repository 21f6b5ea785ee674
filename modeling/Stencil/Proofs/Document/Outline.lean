import Stencil.Document.Build
import Stencil.Proofs.Marker.Kinds
import Stencil.Proofs.Text.Forms

/-!
# Outlines of documents

An accepted document, taken apart into what its region markers say and the plain text around them.
Reading a text as a document succeeds just when it is the text of an outline that fits
(`exists_outline`, `build_text`), and the segments are then those of the outline, up to the places
of the regions. Whatever is done to the plain stretches or the contents of an outline without
bringing in region markers leaves a document, so statements about documents put together from parts
are proved by giving the outline of the whole.
-/

namespace Stencil

open Marker

theorem exists_ok_of_map_ok {ε α β : Type} {x : Except ε α} {f : α → β} {b : β}
    (h : x.map f = .ok b) : ∃ a, x = .ok a ∧ f a = b := by
  cases x with
  | error e => cases h
  | ok a => exact ⟨a, rfl, Except.ok.inj h⟩

namespace Segment

/-- A segment without the place it was found at. -/
def unplaced : Segment → Segment
  | .literal text => .literal text
  | .region name content _ => .region name content ⟨⟨0, 0⟩, ⟨0, 0⟩⟩

@[simp] theorem map_unplaced_literals (t : Text) : (literals t).map unplaced = literals t := by
  unfold literals
  split <;> rfl

@[simp] theorem join_literals (t : Text) : join (literals t) = t := by
  unfold literals
  split
  · next h => rw [List.isEmpty_iff.mp h]; rfl
  · simp [Segment.text]

theorem join_map_unplaced (segments : List Segment) :
    join (segments.map unplaced) = join segments := by
  induction segments with
  | nil => rfl
  | cons segment segments ih =>
      cases segment <;> simpa [Segment.text, unplaced] using ih

theorem regionNames_map_unplaced (segments : List Segment) :
    regionNames (segments.map unplaced) = regionNames segments := by
  induction segments with
  | nil => rfl
  | cons segment segments ih =>
      cases segment <;> simpa [regionNames, unplaced] using ih

theorem contents_map_unplaced (segments : List Segment) :
    contents (segments.map unplaced) = contents segments := by
  induction segments with
  | nil => rfl
  | cons segment segments ih =>
      cases segment <;> simpa [contents, unplaced] using ih

theorem regionNames_eq_map_contents (segments : List Segment) :
    regionNames segments = (contents segments).map Prod.fst := by
  induction segments with
  | nil => rfl
  | cons segment segments ih =>
      cases segment <;> simpa [regionNames, contents] using ih

/-- Markers of other kinds leave no trace. -/
theorem buildFrom_skip (side : Side) (text : Text) (seen : List Text) (cursor : Nat)
    (opened : Option Token) {skipped : List Token}
    (h : ∀ token ∈ skipped, token.kind ≠ .regionBegin side ∧ token.kind ≠ .regionEnd side)
    (tokens : List Token) :
    buildFrom side text seen cursor opened (skipped ++ tokens) =
      buildFrom side text seen cursor opened tokens := by
  induction skipped with
  | nil => rfl
  | cons token skipped ih =>
      obtain ⟨hbegin, hend⟩ := h token List.mem_cons_self
      have ih := ih fun t ht => h t (List.mem_cons_of_mem _ ht)
      cases opened with
      | none => rw [List.cons_append, buildFrom, if_neg hbegin, if_neg hend, ih]
      | some opened => rw [List.cons_append, buildFrom, if_neg hbegin, if_neg hend, ih]

end Segment

/-- The kinds of the markers that cut a document of one side. -/
def regionKinds (side : Side) : List Kind := [.regionBegin side, .regionEnd side]

theorem says_regionKinds_iff {side : Side} {body : Text} :
    Says (regionKinds side) body ↔
      kind? body = some (.regionBegin side) ∨ kind? body = some (.regionEnd side) := by
  simp [Says, regionKinds]

/-- A text that no marker of the side cuts. -/
abbrev Free (side : Side) (t : Text) : Prop := Silent (Says (regionKinds side)) t

theorem Free.tokens {side : Side} {t : Text} (h : Free side t) (starts : List Nat) (p : Nat) :
    ∀ token ∈ tokensFrom starts p t,
      token.kind ≠ .regionBegin side ∧ token.kind ≠ .regionEnd side := by
  intro token htoken
  obtain ⟨body, hb, hkind, -⟩ := exists_body_of_mem_tokensFrom htoken
  have hnot := h body hb
  rw [says_regionKinds_iff, hkind] at hnot
  exact ⟨fun heq => hnot (Or.inl (heq ▸ rfl)), fun heq => hnot (Or.inr (heq ▸ rfl))⟩

/-! ## Outlines -/

/-- A region and the plain text behind it, with what its two markers say. -/
structure Block where
  opening : Text
  content : Text
  closing : Text
  behind : Text

/-- The plain text before the first region, and the regions. -/
structure Outline where
  head : Text
  blocks : List Block

namespace Block

def name (b : Block) : Text := nameOf b.opening

def text (b : Block) : Text :=
  wrap b.opening ++ (b.content ++ (wrap b.closing ++ b.behind))

/-- The markers of a block are those of the side, and its texts are free of others. -/
structure Fits (side : Side) (b : Block) : Prop where
  opening_isBody : IsBody b.opening
  opening_kind : kind? b.opening = some (.regionBegin side)
  content_free : Free side b.content
  closing_isBody : IsBody b.closing
  closing_kind : kind? b.closing = some (.regionEnd side)
  behind_free : Free side b.behind

end Block

namespace Outline

def textFrom (blocks : List Block) : Text := blocks.flatMap Block.text

def text (o : Outline) : Text := o.head ++ textFrom o.blocks

@[simp] theorem textFrom_nil : textFrom [] = [] := rfl

@[simp] theorem textFrom_cons (b : Block) (blocks : List Block) :
    textFrom (b :: blocks) = b.text ++ textFrom blocks := rfl

theorem append_textFrom_cons (t : Text) (b : Block) (blocks : List Block) :
    t ++ textFrom (b :: blocks) = t ++ (wrap b.opening ++ (b.content ++ (wrap b.closing ++
      (b.behind ++ textFrom blocks)))) := by
  simp [Block.text]

theorem exists_text_eq {o : Outline} {b : Block} (h : b ∈ o.blocks) :
    ∃ u v, o.text = u ++ (b.text ++ v) := by
  obtain ⟨before, behind, hblocks⟩ := List.append_of_mem h
  exact ⟨o.head ++ textFrom before, textFrom behind, by simp [text, textFrom, hblocks]⟩

/-- The comments of an outline are those of its parts, in order. -/
theorem bodies_text {o : Outline} (h : ∀ b ∈ o.blocks, IsBody b.opening ∧ IsBody b.closing) :
    bodies o.text = bodies o.head ++ o.blocks.flatMap fun b =>
      b.opening :: (bodies b.content ++ b.closing :: bodies b.behind) := by
  obtain ⟨head, blocks⟩ := o
  rw [text]
  induction blocks generalizing head with
  | nil => simp
  | cons b blocks ih =>
      obtain ⟨hopening, hclosing⟩ := h b List.mem_cons_self
      have hrest := ih b.behind fun b' hb' => h b' (List.mem_cons_of_mem _ hb')
      dsimp only at hrest ⊢
      rw [append_textFrom_cons, bodies_insert _ hopening, bodies_insert _ hclosing, hrest]
      simp

/-- The segments from a literal on that begins with `lead`, an end marker or nothing. -/
def segmentsFrom (lead plain : Text) : List Block → List Segment
  | [] => Segment.literals (lead ++ plain)
  | b :: blocks =>
    .literal (lead ++ (plain ++ wrap b.opening)) ::
      .region b.name b.content ⟨⟨0, 0⟩, ⟨0, 0⟩⟩ ::
        segmentsFrom (wrap b.closing) b.behind blocks

def segments (o : Outline) : List Segment := segmentsFrom [] o.head o.blocks

structure Fits (side : Side) (o : Outline) : Prop where
  head_free : Free side o.head
  blocks_fit : ∀ b ∈ o.blocks, b.Fits side
  nodup : (o.blocks.map Block.name).Nodup

theorem join_segmentsFrom (lead plain : Text) (blocks : List Block) :
    Segment.join (segmentsFrom lead plain blocks) = lead ++ (plain ++ textFrom blocks) := by
  induction blocks generalizing lead plain with
  | nil => simp [segmentsFrom]
  | cons b blocks ih => simp [segmentsFrom, ih, Segment.text, Block.text]

theorem join_segments (o : Outline) : Segment.join o.segments = o.text :=
  join_segmentsFrom [] o.head o.blocks

theorem contents_segmentsFrom (lead plain : Text) (blocks : List Block) :
    Segment.contents (segmentsFrom lead plain blocks) =
      blocks.map fun b => (b.name, b.content) := by
  induction blocks generalizing lead plain with
  | nil =>
      rw [segmentsFrom, Segment.literals]
      split <;> rfl
  | cons b blocks ih => simpa [segmentsFrom, Segment.contents] using ih _ _

theorem contents_segments (o : Outline) :
    Segment.contents o.segments = o.blocks.map fun b => (b.name, b.content) :=
  contents_segmentsFrom [] o.head o.blocks

theorem regionNames_segmentsFrom (lead plain : Text) (blocks : List Block) :
    Segment.regionNames (segmentsFrom lead plain blocks) = blocks.map Block.name := by
  induction blocks generalizing lead plain with
  | nil =>
      rw [segmentsFrom, Segment.literals]
      split <;> rfl
  | cons b blocks ih => simpa [segmentsFrom, Segment.regionNames] using ih _ _

theorem regionNames_segments (o : Outline) :
    Segment.regionNames o.segments = o.blocks.map Block.name :=
  regionNames_segmentsFrom [] o.head o.blocks

/-! ## One region -/

/-- Reading a region, from the literal that ends with its begin marker on. -/
theorem buildFrom_region {side : Side} (starts : List Nat) {plain opening content closing : Text}
    (hplain : Free side plain) (hopening : IsBody opening)
    (hopeningKind : kind? opening = some (.regionBegin side)) (hcontent : Free side content)
    (hclosing : IsBody closing) (hclosingKind : kind? closing = some (.regionEnd side))
    (pre lead rest : Text) {seen : List Text} (hnew : nameOf opening ∉ seen) :
    ∃ span, Segment.buildFrom side
        (pre ++ (lead ++ (plain ++ (wrap opening ++ (content ++ (wrap closing ++ rest)))))) seen
        pre.length none (tokensFrom starts (pre.length + lead.length)
          (plain ++ (wrap opening ++ (content ++ (wrap closing ++ rest))))) =
      (Segment.buildFrom side
        (pre ++ (lead ++ (plain ++ (wrap opening ++ (content ++ (wrap closing ++ rest))))))
        (nameOf opening :: seen)
        (pre ++ (lead ++ (plain ++ (wrap opening ++ content)))).length none
        (tokensFrom starts ((pre ++ (lead ++ (plain ++ (wrap opening ++ content)))).length +
          (wrap closing).length) rest)).map fun more =>
        .literal (lead ++ (plain ++ wrap opening)) ::
          .region (nameOf opening) content span :: more := by
  obtain ⟨opened, hopened, hopenedKind⟩ := exists_tokenOf? starts
    (c := ⟨pre.length + lead.length + plain.length, opening⟩) hopeningKind
  obtain ⟨closed, hclosed, hclosedKind⟩ := exists_tokenOf? starts
    (c := ⟨pre.length + lead.length + plain.length + (wrap opening).length + content.length,
      closing⟩) hclosingKind
  obtain ⟨-, hname, -, hstop, -⟩ := tokenOf?_eq_some hopened
  obtain ⟨-, -, hstart, -, -⟩ := tokenOf?_eq_some hclosed
  rw [Comment.stop_eq] at hstop
  dsimp only at hname hstop hstart
  have hlen : (pre ++ (lead ++ (plain ++ (wrap opening ++ content)))).length =
      pre.length + lead.length + plain.length + (wrap opening).length + content.length := by
    simp only [List.length_append]; omega
  refine ⟨⟨opened.span.stop, closed.position⟩, ?_⟩
  rw [tokensFrom_insert _ _ _ hopening, tokensFrom_insert _ _ _ hclosing, hopened, hclosed,
    Option.toList_some, Option.toList_some, Segment.buildFrom_skip _ _ _ _ _ (hplain.tokens _ _),
    List.singleton_append, Segment.buildFrom, if_pos hopenedKind, if_neg (hname ▸ hnew),
    Segment.buildFrom_skip _ _ _ _ _ (hcontent.tokens _ _), List.singleton_append,
    Segment.buildFrom, if_neg (by rw [hclosedKind]; simp), if_pos hclosedKind, hlen, ← hname,
    hstart]
  congr 1
  funext more
  have hliteral := Text.slice_append pre (lead ++ (plain ++ wrap opening))
    (content ++ (wrap closing ++ rest))
  have hregion := Text.slice_append (pre ++ (lead ++ (plain ++ wrap opening))) content
    (wrap closing ++ rest)
  rw [show pre.length + (lead ++ (plain ++ wrap opening)).length = opened.stop by
    simp only [List.length_append]; omega] at hliteral
  rw [show (pre ++ (lead ++ (plain ++ wrap opening))).length = opened.stop by
    simp only [List.length_append]; omega,
    show opened.stop + content.length = closed.start by omega] at hregion
  simp only [List.append_assoc] at hliteral hregion
  rw [hliteral, ← hstart, hregion, Segment.literals, if_neg (by simp [wrap, opener])]
  rfl

/-! ## The text of an outline is a document -/

theorem buildFrom_text {side : Side} (starts : List Nat) (blocks : List Block) :
    ∀ (pre lead plain : Text) (seen : List Text), Free side plain →
      (∀ b ∈ blocks, b.Fits side) → (blocks.map Block.name).Nodup →
      (∀ b ∈ blocks, b.name ∉ seen) →
      ∃ segments, Segment.buildFrom side (pre ++ (lead ++ (plain ++ textFrom blocks))) seen
          pre.length none
          (tokensFrom starts (pre.length + lead.length) (plain ++ textFrom blocks)) =
            .ok segments ∧
        segments.map Segment.unplaced = segmentsFrom lead plain blocks := by
  induction blocks with
  | nil =>
      intro pre lead plain seen hplain _ _ _
      refine ⟨Segment.literals (lead ++ plain), ?_, Segment.map_unplaced_literals _⟩
      have hskip := Segment.buildFrom_skip side (pre ++ (lead ++ plain)) seen pre.length none
        (hplain.tokens starts (pre.length + lead.length)) []
      rw [List.append_nil] at hskip
      rw [textFrom_nil, List.append_nil, hskip, Segment.buildFrom, List.drop_left]
  | cons b blocks ih =>
      intro pre lead plain seen hplain hfit hnodup hseen
      have hb := hfit b List.mem_cons_self
      obtain ⟨hnew, hnodup⟩ := List.nodup_cons.mp hnodup
      obtain ⟨segments, hsegments, hunplaced⟩ :=
        ih (pre ++ (lead ++ (plain ++ (wrap b.opening ++ b.content)))) (wrap b.closing) b.behind
          (b.name :: seen) hb.behind_free (fun b' hb' => hfit b' (List.mem_cons_of_mem _ hb'))
          hnodup fun b' hb' hmem => by
            rcases List.mem_cons.mp hmem with heq | hmem
            · exact hnew (heq ▸ List.mem_map_of_mem hb')
            · exact hseen b' (List.mem_cons_of_mem _ hb') hmem
      obtain ⟨span, hregion⟩ := buildFrom_region starts hplain hb.opening_isBody hb.opening_kind
        hb.content_free hb.closing_isBody hb.closing_kind pre lead (b.behind ++ textFrom blocks)
        (hseen b List.mem_cons_self)
      simp only [List.append_assoc] at hsegments hregion
      refine ⟨.literal (lead ++ (plain ++ wrap b.opening)) ::
        .region b.name b.content span :: segments, ?_, ?_⟩
      · rw [textFrom_cons, Block.text]
        simp only [List.append_assoc]
        rw [hregion, show nameOf b.opening = b.name from rfl, hsegments]
        rfl
      · rw [List.map_cons, List.map_cons, hunplaced]
        rfl

theorem build_text {side : Side} {o : Outline} (h : o.Fits side) :
    ∃ segments, Segment.build side o.text (scan o.text) = .ok segments ∧
      segments.map Segment.unplaced = o.segments := by
  exact buildFrom_text (Position.lineStarts o.text) o.blocks [] [] o.head [] h.head_free
    h.blocks_fit h.nodup (by simp)

/-! ## A document is the text of an outline -/

theorem exists_regionToken {side : Side} (starts : List Nat) (p : Nat) {body : Text}
    (h : Says (regionKinds side) body) :
    ∃ token, tokenOf? starts ⟨p, body⟩ = some token ∧ nameOf body = token.name ∧
      (token.kind = .regionBegin side ∧ kind? body = some (.regionBegin side) ∨
        token.kind = .regionEnd side ∧ kind? body = some (.regionEnd side)) := by
  rcases says_regionKinds_iff.mp h with hkind | hkind
  · obtain ⟨token, htoken, htokenKind⟩ := exists_tokenOf? starts (c := ⟨p, body⟩) hkind
    exact ⟨token, htoken, (tokenOf?_eq_some htoken).2.1, Or.inl ⟨htokenKind, hkind⟩⟩
  · obtain ⟨token, htoken, htokenKind⟩ := exists_tokenOf? starts (c := ⟨p, body⟩) hkind
    exact ⟨token, htoken, (tokenOf?_eq_some htoken).2.1, Or.inr ⟨htokenKind, hkind⟩⟩

/-- A region that is read to its end has an end marker, and none of its side comes earlier. -/
theorem exists_closing {side : Side} {starts : List Nat} {p cursor : Nat} {text t : Text}
    {seen : List Text} {opened : Token} {segments : List Segment}
    (h : Segment.buildFrom side text seen cursor (some opened) (tokensFrom starts p t) =
      .ok segments) :
    ∃ content closing u, t = content ++ (wrap closing ++ u) ∧ Free side content ∧
      IsBody closing ∧ kind? closing = some (.regionEnd side) := by
  rcases exists_first (Says (regionKinds side)) t with
    hfree | ⟨content, closing, u, rfl, hcontent, hclosing, hsaid⟩
  · have hskip := Segment.buildFrom_skip side text seen cursor (some opened)
      (Free.tokens hfree starts p) []
    rw [List.append_nil] at hskip
    rw [hskip, Segment.buildFrom] at h
    cases h
  · obtain ⟨closed, hclosed, -, hkind⟩ := exists_regionToken starts (p + content.length) hsaid
    rw [tokensFrom_insert _ _ _ hclosing, hclosed, Option.toList_some,
      Segment.buildFrom_skip _ _ _ _ _ (Free.tokens hcontent _ _), List.singleton_append,
      Segment.buildFrom] at h
    rcases hkind with ⟨hclosedKind, -⟩ | ⟨-, hkind⟩
    · rw [if_pos hclosedKind] at h
      cases h
    · exact ⟨content, closing, u, rfl, hcontent, hclosing, hkind⟩

/-- Between regions comes a new region, or nothing more that cuts. -/
theorem exists_opening {side : Side} {starts : List Nat} {p cursor : Nat} {text t : Text}
    {seen : List Text} {segments : List Segment}
    (h : Segment.buildFrom side text seen cursor none (tokensFrom starts p t) = .ok segments) :
    Free side t ∨ ∃ plain opening content closing u,
      t = plain ++ (wrap opening ++ (content ++ (wrap closing ++ u))) ∧ Free side plain ∧
        IsBody opening ∧ kind? opening = some (.regionBegin side) ∧ nameOf opening ∉ seen ∧
        Free side content ∧ IsBody closing ∧ kind? closing = some (.regionEnd side) := by
  rcases exists_first (Says (regionKinds side)) t with
    hfree | ⟨plain, opening, u, rfl, hplain, hopening, hsaid⟩
  · exact Or.inl hfree
  · obtain ⟨opened, hopened, hname, hkind⟩ :=
      exists_regionToken starts (p + plain.length) hsaid
    rw [tokensFrom_insert _ _ _ hopening, hopened, Option.toList_some,
      Segment.buildFrom_skip _ _ _ _ _ (Free.tokens hplain _ _), List.singleton_append,
      Segment.buildFrom] at h
    rcases hkind with ⟨hopenedKind, hkind⟩ | ⟨hopenedKind, -⟩
    · rw [if_pos hopenedKind] at h
      split at h
      · cases h
      · next hnew =>
        obtain ⟨content, closing, v, rfl, hcontent, hclosing, hcloses⟩ := exists_closing h
        exact Or.inr ⟨plain, opening, content, closing, v, rfl, hplain, hopening, hkind,
          hname ▸ hnew, hcontent, hclosing, hcloses⟩
    · rw [if_neg (by rw [hopenedKind]; simp), if_pos hopenedKind] at h
      cases h

theorem exists_outline_from {side : Side} (starts : List Nat) (t : Text) :
    ∀ (pre lead : Text) (seen : List Text) (segments : List Segment),
      Segment.buildFrom side (pre ++ (lead ++ t)) seen pre.length none
        (tokensFrom starts (pre.length + lead.length) t) = .ok segments →
      ∃ plain blocks, t = plain ++ textFrom blocks ∧ Free side plain ∧
        (∀ b ∈ blocks, b.Fits side) ∧ (blocks.map Block.name).Nodup ∧
        (∀ b ∈ blocks, b.name ∉ seen) ∧
        segments.map Segment.unplaced = segmentsFrom lead plain blocks := by
  induction hn : t.length using Nat.strongRecOn generalizing t with
  | ind n ih =>
      intro pre lead seen segments hbuild
      rcases exists_opening hbuild with hfree | ⟨plain, opening, content, closing, u, rfl, hplain,
        hopening, hopeningKind, hnew, hcontent, hclosing, hclosingKind⟩
      · -- nothing is left to cut
        have hskip := Segment.buildFrom_skip side (pre ++ (lead ++ t)) seen pre.length none
          (Free.tokens hfree starts (pre.length + lead.length)) []
        rw [List.append_nil] at hskip
        rw [hskip, Segment.buildFrom, List.drop_left] at hbuild
        obtain rfl := Except.ok.inj hbuild
        exact ⟨t, [], by simp, hfree, by simp, by simp, by simp, Segment.map_unplaced_literals _⟩
      · obtain ⟨span, hregion⟩ := buildFrom_region starts hplain hopening hopeningKind hcontent
          hclosing hclosingKind pre lead u hnew
        rw [hregion] at hbuild
        obtain ⟨more, hmore, rfl⟩ := exists_ok_of_map_ok hbuild
        obtain ⟨behind, blocks, rfl, hbehind, hfit, hnodup, hseen, hunplaced⟩ :=
          ih u.length (by simp only [List.length_append, length_wrap] at hn; omega) u rfl
            (pre ++ (lead ++ (plain ++ (wrap opening ++ content)))) (wrap closing)
            (nameOf opening :: seen) more (by simpa only [List.append_assoc] using hmore)
        refine ⟨plain, ⟨opening, content, closing, behind⟩ :: blocks, by simp [Block.text], hplain,
          ?_, ?_, ?_, ?_⟩
        · intro b hb
          rcases List.mem_cons.mp hb with rfl | hb
          · exact ⟨hopening, hopeningKind, hcontent, hclosing, hclosingKind, hbehind⟩
          · exact hfit b hb
        · refine List.nodup_cons.mpr ⟨fun hm => ?_, hnodup⟩
          obtain ⟨b, hb, heq⟩ := List.mem_map.mp hm
          exact hseen b hb (heq ▸ List.mem_cons_self)
        · intro b hb
          rcases List.mem_cons.mp hb with rfl | hb
          · exact hnew
          · exact fun hm => hseen b hb (List.mem_cons_of_mem _ hm)
        · rw [List.map_cons, List.map_cons, hunplaced]
          rfl

theorem exists_outline {side : Side} {text : Text} {segments : List Segment}
    (h : Segment.build side text (scan text) = .ok segments) :
    ∃ o : Outline, o.Fits side ∧ o.text = text ∧
      segments.map Segment.unplaced = o.segments := by
  obtain ⟨head, blocks, rfl, hhead, hfit, hnodup, -, hunplaced⟩ :=
    exists_outline_from (Position.lineStarts text) text [] [] [] segments h
  exact ⟨⟨head, blocks⟩, ⟨hhead, hfit, hnodup⟩, rfl, hunplaced⟩

end Outline

end Stencil

import Mathlib.Data.List.Sort
import Stencil.Proofs.Skeleton.Descriptions
import Stencil.Proofs.Skeleton.Renaming

/-!
# What dropping comments does to markers

A cut leaves some glyphs of a text (`survivors`), so each glyph of what is left can be traced back
to an offset (`cutAll_eq_filterMap`). A marker of the text is *spared* by a cut that takes no glyph
of it, and a marker of what is left is *whole* if its glyphs stood side by side before. The whole
markers are just those that were spared, in the same order and saying the same (`scan_cutAll`).

Comments on the template are dropped by a search of its own, which asks for a closer and minds no
opener in between. So a marker behind a comment on the template that is not ended is lost, and what
stood on both sides of a dropped comment may make up a marker. `said_toPage` is exact about this:
region and parameter markers come out in their places if and only if neither happens.
-/

namespace Stencil

namespace Text

/-- The glyphs at consecutive offsets. -/
theorem filterMap_range' (t : Text) (n k : Nat) :
    (List.range' n k).filterMap (t[·]?) = t.slice n (n + k) := by
  rw [slice, Nat.add_sub_cancel_left]
  induction k generalizing n with
  | zero => rfl
  | succ k ih =>
      rw [List.range'_succ, List.filterMap_cons, ih]
      cases hget : t[n]? with
      | none =>
          have hlength : t.length ≤ n := List.getElem?_eq_none_iff.mp hget
          rw [List.drop_of_length_le hlength, List.drop_of_length_le (by omega), List.take_nil,
            List.take_nil]
      | some g =>
          obtain ⟨hlt, rfl⟩ := List.getElem?_eq_some_iff.mp hget
          rw [List.drop_eq_getElem_cons hlt, List.take_succ_cons]

theorem eq_of_splitAt? {mark t before rest : Text} (h : splitAt? mark t = some (before, rest)) :
    t = before ++ (mark ++ rest) := by
  induction t generalizing before with
  | nil =>
      rw [splitAt?] at h
      split at h
      · next hempty =>
        obtain ⟨rfl, rfl⟩ := Prod.mk.inj (Option.some.inj h)
        rw [List.isEmpty_iff.mp hempty]
        rfl
      · cases h
  | cons g t ih =>
      rw [splitAt?] at h
      split at h
      · next hrest =>
        obtain ⟨rfl, rfl⟩ := Prod.mk.inj (Option.some.inj h)
        rw [List.nil_append]
        exact dropHead?_eq_some_iff.mp hrest
      · obtain ⟨⟨before', rest'⟩, hsplit, heq⟩ := Option.map_eq_some_iff.mp h
        obtain ⟨rfl, rfl⟩ := Prod.mk.inj heq
        rw [ih hsplit, List.cons_append]

theorem length_filterMap_getElem? {t : Text} {offsets : List Nat} (h : ∀ i ∈ offsets, i < t.length) :
    (offsets.filterMap (t[·]?)).length = offsets.length := by
  induction offsets with
  | nil => rfl
  | cons i offsets ih =>
      rw [List.filterMap_cons, List.getElem?_eq_getElem (h i List.mem_cons_self), List.length_cons,
        List.length_cons, ih fun j hj => h j (List.mem_cons_of_mem _ hj)]

end Text

/-! ## Offsets that a cut leaves -/

namespace Form

variable {α : Type} {form : Form α}

/-- Whether no match takes the glyph at an offset. -/
def leaves (form : Form α) (t : Text) (i : Nat) : Bool :=
  (form.findAll t).all fun found => i < found.start || found.stop ≤ i

/-- The offsets of the glyphs that no match takes. -/
def survivors (form : Form α) (t : Text) : List Nat :=
  (List.range t.length).filter (form.leaves t)

theorem leaves_iff {t : Text} {i : Nat} :
    form.leaves t i = true ↔ ∀ found ∈ form.findAll t, i < found.start ∨ found.stop ≤ i := by
  simp [leaves]

theorem pairwise_survivors (form : Form α) (t : Text) : (form.survivors t).Pairwise (· < ·) :=
  List.pairwise_lt_range.filter _

theorem lt_of_mem_survivors {t : Text} {i : Nat} (h : i ∈ form.survivors t) : i < t.length :=
  List.mem_range.mp (List.mem_filter.mp h).1

/-- A text that is searched in two parts: first `s`, where the matches are those in front. -/
theorem survivors_append {s t : Text} {front : List (Found α)}
    (h : form.findAll (s ++ t) = front ++ (form.findAll t).map (Found.shift s.length))
    (hfront : ∀ found ∈ front, found.stop ≤ s.length) : form.survivors (s ++ t) =
      (List.range s.length).filter (form.leaves (s ++ t)) ++
        (form.survivors t).map (s.length + ·) := by
  have hleaves : form.leaves (s ++ t) ∘ (s.length + ·) = form.leaves t := by
    funext i
    rw [Function.comp, Bool.eq_iff_iff, leaves_iff, leaves_iff, h]
    simp only [List.forall_mem_append, List.forall_mem_map, Found.start_shift, Found.stop_shift,
      Nat.add_lt_add_iff_left, Nat.add_le_add_iff_left]
    exact and_iff_right fun found hfound => Or.inr ((hfront found hfound).trans (Nat.le_add_right _ _))
  rw [survivors, survivors, List.length_append, List.range_add, List.filter_append, List.filter_map,
    hleaves]

theorem survivors_cons (hblind : form.IsBlind) {g : Glyph} {t : Text}
    (h : form none (g :: t) = none) :
    form.survivors (g :: t) = 0 :: (form.survivors t).map (1 + ·) := by
  have hfind : form.findAll ([g] ++ t) = [] ++ (form.findAll t).map (Found.shift 1) :=
    findAll_cons hblind h
  have hzero : form.leaves ([g] ++ t) 0 = true := by
    rw [leaves_iff, hfind, List.nil_append, List.forall_mem_map]
    exact fun found _ => Or.inl (Nat.lt_add_right _ Nat.one_pos)
  have hsplit := survivors_append hfind (by simp)
  rw [List.length_singleton, List.range_one, List.filter_singleton, hzero] at hsplit
  exact hsplit

theorem survivors_read (hblind : form.IsBlind) {s t : Text} {value : α} (hne : s ≠ [])
    (h : form none (s ++ t) = some (value, t)) :
    form.survivors (s ++ t) = (form.survivors t).map (s.length + ·) := by
  have hfind : form.findAll (s ++ t) =
      [⟨0, s.length, value⟩] ++ (form.findAll t).map (Found.shift s.length) :=
    findAll_read hblind hne h
  have hnone : (List.range s.length).filter (form.leaves (s ++ t)) = [] := by
    rw [List.filter_eq_nil_iff]
    intro i hi hleaves
    rw [leaves_iff, hfind] at hleaves
    rcases hleaves _ (List.mem_append_left _ (List.mem_singleton_self _)) with hlt | hle
    · exact Nat.not_lt_zero i hlt
    · exact absurd (List.mem_range.mp hi) (Nat.not_lt_of_le hle)
  rw [survivors_append hfind (by simp), hnone, List.nil_append]

/-- What a cut leaves are the glyphs that no match takes. -/
theorem cutAll_eq_filterMap (hblind : form.IsBlind) (hreader : form.IsReader) (t : Text) :
    form.cutAll t = (form.survivors t).filterMap (t[·]?) := by
  induction hn : t.length using Nat.strongRecOn generalizing t with
  | ind n ih =>
      subst hn
      have hbehind : ∀ s u : Text, ((form.survivors u).map (s.length + ·)).filterMap
          ((s ++ u)[·]?) = (form.survivors u).filterMap (u[·]?) := by
        intro s u
        rw [List.filterMap_map]
        refine List.filterMap_congr fun i _ => ?_
        rw [Function.comp, List.getElem?_append_right (Nat.le_add_right _ _),
          Nat.add_sub_cancel_left]
      cases t with
      | nil => rfl
      | cons g t =>
          cases hread : form none (g :: t) with
          | none =>
              have hrest := hbehind [g] t
              rw [List.singleton_append, List.length_singleton] at hrest
              rw [cutAll_cons hblind hread, survivors_cons hblind hread,
                ih t.length (Nat.lt_succ_self _) t rfl, List.filterMap_cons, hrest]
              rfl
          | some read =>
              obtain ⟨value, rest⟩ := read
              obtain ⟨s, hne, heq⟩ := hreader _ _ _ _ hread
              have hpos := List.length_pos_iff.mpr hne
              rw [heq] at hread ⊢
              rw [cutAll_read hblind hne hread, survivors_read hblind hne hread, hbehind]
              refine ih rest.length ?_ rest rfl
              rw [heq, List.length_append]
              omega

theorem length_survivors (hblind : form.IsBlind) (hreader : form.IsReader) (t : Text) :
    (form.survivors t).length = (form.cutAll t).length := by
  rw [cutAll_eq_filterMap hblind hreader,
    Text.length_filterMap_getElem? fun i hi => lt_of_mem_survivors hi]

/-- A stretch of which no glyph is taken is left as it is. -/
theorem exists_survivors {x w v : Text}
    (h : ∀ i, x.length ≤ i → i < x.length + w.length → form.leaves (x ++ (w ++ v)) i = true) :
    ∃ front back, (∀ i ∈ front, i < x.length) ∧ form.survivors (x ++ (w ++ v)) =
      front ++ (List.range' x.length w.length ++ back) := by
  have hkeep : (List.range' x.length w.length).filter (form.leaves (x ++ (w ++ v))) =
      List.range' x.length w.length := by
    refine List.filter_eq_self.mpr fun i hi => ?_
    obtain ⟨hle, hlt⟩ := List.mem_range'_1.mp hi
    exact h i hle hlt
  have hrange : List.range (x ++ (w ++ v)).length = List.range x.length ++
      (List.range' x.length w.length ++ List.range' (x.length + w.length) v.length) := by
    have hfront := List.range'_append_1 (s := 0) (m := x.length) (n := w.length + v.length)
    rw [Nat.zero_add] at hfront
    rw [List.range_eq_range', List.range_eq_range', List.length_append, List.length_append,
      List.range'_append_1, hfront]
  refine ⟨(List.range x.length).filter (form.leaves (x ++ (w ++ v))),
    (List.range' (x.length + w.length) v.length).filter (form.leaves (x ++ (w ++ v))),
    fun i hi => List.mem_range.mp (List.mem_filter.mp hi).1, ?_⟩
  rw [survivors, hrange, List.filter_append, List.filter_append, hkeep]

theorem exists_cutAll_of_leaves (hblind : form.IsBlind) (hreader : form.IsReader) {x w v : Text}
    (h : ∀ i, x.length ≤ i → i < x.length + w.length → form.leaves (x ++ (w ++ v)) i = true) :
    ∃ y z, form.cutAll (x ++ (w ++ v)) = y ++ (w ++ z) ∧
      (form.survivors (x ++ (w ++ v))).extract y.length (y.length + w.length) =
        List.range' x.length w.length := by
  obtain ⟨front, back, hfront, hsplit⟩ := exists_survivors h
  have hlength : (front.filterMap ((x ++ (w ++ v))[·]?)).length = front.length := by
    refine Text.length_filterMap_getElem? fun i hi => ?_
    have hlt := hfront i hi
    rw [List.length_append]
    omega
  refine ⟨front.filterMap ((x ++ (w ++ v))[·]?), back.filterMap ((x ++ (w ++ v))[·]?), ?_, ?_⟩
  · rw [cutAll_eq_filterMap hblind hreader, hsplit, List.filterMap_append, List.filterMap_append,
      Text.filterMap_range', Text.slice_append]
  · rw [hlength, hsplit, List.extract, List.drop_left, Nat.add_sub_cancel_left]
    exact List.take_left' List.length_range'

/-- A stretch of what is left whose glyphs stood side by side is one of which none is taken. -/
theorem exists_split_of_cutAll (hblind : form.IsBlind) (hreader : form.IsReader) {t y w z : Text}
    {n : Nat} (hne : w ≠ []) (hcut : form.cutAll t = y ++ (w ++ z))
    (h : (form.survivors t).extract y.length (y.length + w.length) = List.range' n w.length) :
    ∃ u v, t = u ++ (w ++ v) ∧ u.length = n ∧
      ∀ i, n ≤ i → i < n + w.length → form.leaves t i = true := by
  rw [List.extract, Nat.add_sub_cancel_left] at h
  have hmem : ∀ i, n ≤ i → i < n + w.length → i ∈ form.survivors t := by
    intro i hle hlt
    have hi : i ∈ List.range' n w.length := List.mem_range'_1.mpr ⟨hle, hlt⟩
    rw [← h] at hi
    exact List.drop_subset _ _ (List.take_subset _ _ hi)
  have hslice : t.slice n (n + w.length) = w := by
    have hbounds : ∀ {offsets : List Nat}, offsets ⊆ form.survivors t →
        (offsets.filterMap (t[·]?)).length = offsets.length := fun hsub =>
      Text.length_filterMap_getElem? fun i hi => lt_of_mem_survivors (hsub hi)
    have hfront : (((form.survivors t).take y.length).filterMap (t[·]?)).length = y.length := by
      rw [hbounds (List.take_subset _ _), List.length_take, length_survivors hblind hreader, hcut,
        List.length_append]
      omega
    have hrange : ((List.range' n w.length).filterMap (t[·]?)).length = w.length := by
      rw [← h, hbounds fun i hi => List.drop_subset _ _ (List.take_subset _ _ hi), h,
        List.length_range']
    -- what is left is split as the offsets are
    rw [cutAll_eq_filterMap hblind hreader, ← List.take_append_drop y.length (form.survivors t),
      ← List.take_append_drop w.length ((form.survivors t).drop y.length),
      List.filterMap_append, List.filterMap_append, h] at hcut
    rw [← Text.filterMap_range']
    exact (List.append_inj (List.append_inj hcut hfront).2 hrange).1
  have hlt : n < t.length :=
    lt_of_mem_survivors (hmem n (Nat.le_refl n) (Nat.lt_add_of_pos_right
      (List.length_pos_iff.mpr hne)))
  refine ⟨t.take n, t.drop (n + w.length), ?_, List.length_take_of_le hlt.le,
    fun i hle hlt => (List.mem_filter.mp (hmem i hle hlt)).2⟩
  rw [Text.slice, Nat.add_sub_cancel_left] at hslice
  conv_lhs => rw [← List.take_append_drop n t, ← List.take_append_drop w.length (t.drop n), hslice,
    List.drop_drop]

end Form

/-! ## Markers of what is left -/

namespace Marker

/-- The offsets of the glyphs that a marker takes. -/
def places (token : Token) : List Nat := List.range' token.start (token.stop - token.start)

section Cut

variable {α : Type} (form : Form α) (t : Text)

/-- The offsets that the glyphs of a marker had before the cut. -/
def origins (token : Token) : List Nat := (form.survivors t).extract token.start token.stop

/-- The glyphs of a marker stood side by side before the cut. -/
def IsWhole (token : Token) : Prop :=
  ∃ n, origins form t token = List.range' n (token.stop - token.start)

/-- The cut takes no glyph of a marker. -/
def IsSpared (token : Token) : Prop :=
  ∀ found ∈ form.findAll t, found.stop ≤ token.start ∨ token.stop ≤ found.start

instance (token : Token) : Decidable (IsWhole form t token) :=
  decidable_of_iff (origins form t token =
      List.range' ((origins form t token).headD 0) (token.stop - token.start)) <| by
    refine ⟨fun h => ⟨_, h⟩, fun ⟨n, h⟩ => ?_⟩
    rw [h]
    cases token.stop - token.start <;> rfl

instance (token : Token) : Decidable (IsSpared form t token) :=
  inferInstanceAs (Decidable (∀ found ∈ form.findAll t, _))

end Cut

/-- A marker is a comment, and stands where it stands. -/
theorem exists_split_of_mem_scan {t : Text} {token : Token} (h : token ∈ scan t) :
    ∃ u body v, t = u ++ (wrap body ++ v) ∧ IsBody body ∧ kind? body = some token.kind ∧
      nameOf body = token.name ∧ token.start = u.length ∧
      token.stop = u.length + (wrap body).length := by
  obtain ⟨c, hc, htoken⟩ := List.mem_filterMap.mp h
  obtain ⟨hkind, hname, hstart, hstop, -⟩ := tokenOf?_eq_some htoken
  obtain ⟨i, hi, hat⟩ := mem_commentsFrom_iff.mp hc
  obtain ⟨hbody, v, hdrop⟩ := commentAt?_eq_some_iff.mp hat
  have hle : i ≤ t.length := by
    by_contra hover
    rw [List.drop_of_length_le (Nat.le_of_not_le hover)] at hdrop
    simp [wrap, opener] at hdrop
  have hlength : (t.take i).length = i := List.length_take_of_le hle
  refine ⟨t.take i, c.body, v, ?_, hbody, hkind, hname, ?_, ?_⟩
  · rw [← hdrop, List.take_append_drop]
  · rw [hstart, hi, hlength, Nat.zero_add]
  · rw [hstop, Comment.stop_eq, hi, hlength, Nat.zero_add]

theorem exists_mem_scan {body : Text} {kind : Kind} (hbody : IsBody body)
    (h : kind? body = some kind) (u v : Text) : ∃ token ∈ scan (u ++ (wrap body ++ v)),
      token.kind = kind ∧ token.name = nameOf body ∧ token.start = u.length ∧
        token.stop = u.length + (wrap body).length := by
  obtain ⟨token, htoken, hkind⟩ := exists_tokenOf?
    (Position.lineStarts (u ++ (wrap body ++ v))) (c := ⟨0 + u.length, body⟩) h
  obtain ⟨-, hname, hstart, hstop, -⟩ := tokenOf?_eq_some htoken
  rw [Comment.stop_eq] at hstop
  dsimp only at hstart hstop
  rw [Nat.zero_add] at hstart hstop
  refine ⟨token, ?_, hkind, hname.symm, hstart, hstop⟩
  rw [scan_eq_tokensFrom, tokensFrom_insert _ 0 u hbody, htoken]
  simp

section Cut

variable {α : Type} {form : Form α}

theorem isSpared_iff (hreader : form.IsReader) {t : Text} {token : Token}
    (h : token.start < token.stop) : IsSpared form t token ↔
      ∀ i, token.start ≤ i → i < token.stop → form.leaves t i = true := by
  simp only [IsSpared, Form.leaves_iff]
  constructor
  · intro hspared i hle hlt found hfound
    rcases hspared found hfound with hbefore | hbehind
    · exact Or.inr (hbefore.trans hle)
    · exact Or.inl (hlt.trans_le hbehind)
  · intro hleaves found hfound
    obtain ⟨hbounds, -⟩ := Form.bounds_findFrom hreader (t := t) 0 0 none
    have hpos := (hbounds found hfound).2.1
    -- of two stretches that meet one begins in the other
    have hstart := hleaves token.start (Nat.le_refl _) h found hfound
    by_contra hmeet
    have hbegin := hleaves found.start (by omega) (by omega) found hfound
    omega

theorem length_origins (hblind : form.IsBlind) (hreader : form.IsReader) {t : Text} {token : Token}
    (h : token ∈ scan (form.cutAll t)) :
    (origins form t token).length = token.stop - token.start := by
  obtain ⟨u, body, v, hcut, -, -, -, hstart, hstop⟩ := exists_split_of_mem_scan h
  rw [origins, List.extract, List.length_take, List.length_drop, Form.length_survivors hblind hreader,
    hcut, List.length_append, List.length_append]
  omega

/-- A marker that is spared is found in what is left, and whole. -/
theorem exists_whole_of_spared (hblind : form.IsBlind) (hreader : form.IsReader) {t : Text}
    {token : Token} (h : token ∈ scan t) (hspared : IsSpared form t token) :
    ∃ token' ∈ scan (form.cutAll t), IsWhole form t token' ∧
      origins form t token' = places token ∧ token'.kind = token.kind ∧
        token'.name = token.name := by
  obtain ⟨u, body, v, rfl, hbody, hkind, hname, hstart, hstop⟩ := exists_split_of_mem_scan h
  have hpos : token.start < token.stop := by
    rw [hstart, hstop, length_wrap]
    omega
  have hleaves := (isSpared_iff hreader hpos).mp hspared
  rw [hstart, hstop] at hleaves
  obtain ⟨y, z, hcut, horigins⟩ := Form.exists_cutAll_of_leaves hblind hreader hleaves
  obtain ⟨token', htoken', hkind', hname', hstart', hstop'⟩ := exists_mem_scan hbody hkind y z
  have hplaces : origins form (u ++ (wrap body ++ v)) token' = places token := by
    rw [origins, places, hstart', hstop', hstart, hstop, Nat.add_sub_cancel_left, horigins]
  refine ⟨token', hcut ▸ htoken', ⟨token.start, ?_⟩, hplaces, hkind', hname'.trans hname⟩
  rw [hplaces, places, hstart, hstop, hstart', hstop', Nat.add_sub_cancel_left,
    Nat.add_sub_cancel_left]

/-- A whole marker of what is left was a marker before, and is spared. -/
theorem exists_spared_of_whole (hblind : form.IsBlind) (hreader : form.IsReader) {t : Text}
    {token' : Token} (h : token' ∈ scan (form.cutAll t)) (hwhole : IsWhole form t token') :
    ∃ token ∈ scan t, IsSpared form t token ∧ origins form t token' = places token ∧
      token'.kind = token.kind ∧ token'.name = token.name := by
  obtain ⟨y, body, z, hcut, hbody, hkind, hname, hstart', hstop'⟩ := exists_split_of_mem_scan h
  obtain ⟨n, horigins⟩ := hwhole
  have hextract := horigins
  rw [origins, hstart', hstop', Nat.add_sub_cancel_left] at hextract
  obtain ⟨u, v, rfl, rfl, hleaves⟩ := Form.exists_split_of_cutAll hblind hreader
    (by simp [wrap, opener]) hcut hextract
  obtain ⟨token, htoken, hkind', hname', hstart, hstop⟩ := exists_mem_scan hbody hkind u v
  have hpos : token.start < token.stop := by
    rw [hstart, hstop, length_wrap]
    omega
  refine ⟨token, htoken, (isSpared_iff hreader hpos).mpr ?_, ?_, hkind'.symm,
    (hname'.trans hname).symm⟩
  · rw [hstart, hstop]
    exact hleaves
  · rw [horigins, places, hstart, hstop, hstart', hstop', Nat.add_sub_cancel_left,
      Nat.add_sub_cancel_left]

/-- Whole markers that follow one another had their glyphs in this order before. -/
theorem headD_origins_lt {t : Text} {token token' : Token} (h : IsWhole form t token)
    (h' : IsWhole form t token') (hpos : token.start < token.stop) (hpos' : token'.start < token'.stop)
    (hlt : token.start < token'.start) :
    (origins form t token).headD 0 < (origins form t token').headD 0 := by
  have hhead : ∀ {token : Token}, IsWhole form t token → token.start < token.stop →
      ∃ hi : token.start < (form.survivors t).length,
        (origins form t token).headD 0 = (form.survivors t)[token.start] := by
    rintro token ⟨n, hn⟩ hpos
    obtain ⟨k, hk⟩ : ∃ k, token.stop - token.start = k + 1 := ⟨token.stop - token.start - 1, by omega⟩
    have hi : token.start < (form.survivors t).length := by
      by_contra hover
      rw [origins, List.extract, List.drop_of_length_le (Nat.le_of_not_lt hover), List.take_nil,
        hk] at hn
      cases hn
    refine ⟨hi, ?_⟩
    rw [origins, List.extract, List.drop_eq_getElem_cons hi, hk]
    rfl
  obtain ⟨hi, hhere⟩ := hhead h hpos
  obtain ⟨hi', hthere⟩ := hhead h' hpos'
  rw [hhere, hthere]
  exact List.pairwise_iff_getElem.mp (form.pairwise_survivors t) _ _ hi hi' hlt

/-- The whole markers of what a cut leaves are the markers that it spares. -/
theorem scan_cutAll (hblind : form.IsBlind) (hreader : form.IsReader) (t : Text) :
    ((scan (form.cutAll t)).filter fun token => IsWhole form t token).map
        (fun token => (origins form t token, token.kind, token.name)) =
      ((scan t).filter fun token => IsSpared form t token).map
        fun token => (places token, token.kind, token.name) := by
  have hpos : ∀ {t : Text} {token : Token}, token ∈ scan t → token.start < token.stop := by
    intro t token htoken
    obtain ⟨u, body, v, -, -, -, -, hstart, hstop⟩ := exists_split_of_mem_scan htoken
    rw [hstart, hstop, length_wrap]
    omega
  -- both lists are in the order of the first offset, so it is enough that they have the same members
  let r : List Nat × Kind × Text → List Nat × Kind × Text → Prop :=
    fun a b => a.1.headD 0 < b.1.headD 0
  have : Std.Irrefl r := ⟨fun a h => Nat.lt_irrefl _ h⟩
  have : Std.Antisymm r := ⟨fun a b h h' => absurd h (Nat.lt_asymm h')⟩
  have hscan : ∀ t : Text, (scan t).Pairwise fun token token' => token.start < token'.start :=
    fun t => pairwise_tokensFrom (Position.lineStarts t) 0 t
  refine List.Pairwise.eq_of_mem_iff (r := r) ?_ ?_ ?_
  · rw [List.pairwise_map]
    refine ((hscan _).filter _).imp_of_mem fun {token token'} htoken htoken' hlt => ?_
    simp only [List.mem_filter, decide_eq_true_eq] at htoken htoken'
    exact headD_origins_lt htoken.2 htoken'.2 (hpos htoken.1) (hpos htoken'.1) hlt
  · rw [List.pairwise_map]
    refine ((hscan _).filter _).imp_of_mem fun {token token'} htoken htoken' hlt => ?_
    have hhead : ∀ {token : Token}, token ∈ scan t → (places token).headD 0 = token.start := by
      intro token htoken
      obtain ⟨k, hk⟩ : ∃ k, token.stop - token.start = k + 1 :=
        ⟨token.stop - token.start - 1, by have := hpos htoken; omega⟩
      rw [places, hk]
      rfl
    show (places token).headD 0 < (places token').headD 0
    rwa [hhead (List.mem_filter.mp htoken).1, hhead (List.mem_filter.mp htoken').1]
  · intro sign
    simp only [List.mem_map, List.mem_filter, decide_eq_true_eq]
    constructor
    · rintro ⟨token', ⟨htoken', hwhole⟩, rfl⟩
      obtain ⟨token, htoken, hspared, hplaces, hkind, hname⟩ :=
        exists_spared_of_whole hblind hreader htoken' hwhole
      exact ⟨token, ⟨htoken, hspared⟩, by rw [hplaces, hkind, hname]⟩
    · rintro ⟨token, ⟨htoken, hspared⟩, rfl⟩
      obtain ⟨token', htoken', hwhole, hplaces, hkind, hname⟩ :=
        exists_whole_of_spared hblind hreader htoken hspared
      exact ⟨token', ⟨htoken', hwhole⟩, by rw [hplaces, hkind, hname]⟩

end Cut

end Marker

/-! ## Markers of page text -/

namespace Marker

/-- Whether a marker of a kind belongs to a side: those of regions and of parameters do. -/
def Kind.isSided : Kind → Bool
  | .regionBegin _ | .regionEnd _ | .param _ => true
  | .binding | .bindingEnd => false

@[simp] theorem Kind.isSided_onPage (kind : Kind) : kind.onPage.isSided = kind.isSided := by
  rcases kind with side | side | side | _ | _ <;> rfl

/-- The region and parameter markers of a text. -/
def sided (t : Text) : List Token := (scan t).filter fun token => token.kind.isSided

/-- What the region and parameter markers of a text say, in order. -/
def signs (t : Text) : List (Kind × Text) := (sided t).map fun token => (token.kind, token.name)

/-- What a comment with this body says, if it is a region or a parameter marker. -/
def signOf? (body : Text) : Option (Kind × Text) :=
  ((kind? body).filter Kind.isSided).map fun kind => (kind, nameOf body)

theorem signs_eq (t : Text) : signs t = (bodies t).filterMap signOf? := by
  rw [signs, sided, scan, bodies, List.filter_filterMap, List.map_filterMap, List.filterMap_map]
  refine List.filterMap_congr fun c _ => ?_
  rw [Function.comp_apply, signOf?]
  cases htoken : tokenOf? (Position.lineStarts t) c with
  | none =>
      have hclass : classify c.body = none := Option.map_eq_none_iff.mp htoken
      rw [kind?, hclass]
      rfl
  | some token =>
      obtain ⟨hkind, hname, -⟩ := tokenOf?_eq_some htoken
      rw [hkind, hname, Option.filter_some, Option.filter_some]
      split <;> rfl

end Marker

namespace Skeleton

open Marker

theorem isReader_infoForm : infoForm.IsReader := by
  intro before t value rest h
  rw [infoForm_eq] at h
  obtain ⟨inner, hinner, hsplit⟩ := Option.bind_eq_some_iff.mp h
  obtain ⟨⟨passed, after⟩, hafter, heq⟩ := Option.map_eq_some_iff.mp hsplit
  obtain ⟨-, rfl⟩ := Prod.mk.inj heq
  rw [infoHead?_eq] at hinner
  obtain ⟨behind, hbehind, hread⟩ := Option.bind_eq_some_iff.mp hinner
  obtain rfl := Text.dropHead?_eq_some_iff.mp hbehind
  obtain ⟨x, rfl⟩ := infoRest?_suffix hread
  obtain rfl := Text.eq_of_splitAt? hafter
  exact ⟨opener ++ (x ++ (passed ++ closer)), by simp [opener], by simp only [List.append_assoc]⟩

/-- Dropping the comments on the template from its converted text takes no glyph of a region or
parameter marker, and brings none together from what stood apart. -/
structure DropsCleanly (t : Text) : Prop where
  spared : ∀ token ∈ sided t, IsSpared infoForm (converted [] t) token
  whole : ∀ token ∈ sided (toPage [] t), IsWhole infoForm (converted [] t) token

instance (t : Text) : Decidable (DropsCleanly t) :=
  decidable_of_iff ((∀ token ∈ sided t, IsSpared infoForm (converted [] t) token) ∧
      ∀ token ∈ sided (toPage [] t), IsWhole infoForm (converted [] t) token)
    ⟨fun ⟨h, h'⟩ => ⟨h, h'⟩, fun ⟨h, h'⟩ => ⟨h, h'⟩⟩

theorem sided_converted (t : Text) : sided (converted [] t) = (sided t).map pageToken := by
  rw [sided, sided, scan_converted, List.filter_map]
  refine congrArg (List.map pageToken) (List.filter_congr fun token _ => ?_)
  exact Kind.isSided_onPage token.kind

/-- The whole region and parameter markers of page text are those of the template that are spared,
on the page's side. -/
theorem sided_toPage (t : Text) :
    ((sided (toPage [] t)).filter fun token => IsWhole infoForm (converted [] t) token).map
        (fun token => (origins infoForm (converted [] t) token, token.kind, token.name)) =
      ((sided t).filter fun token => IsSpared infoForm (converted [] t) token).map
        fun token => (places token, token.kind.onPage, token.name) := by
  have hall := congrArg (List.filter fun sign => sign.2.1.isSided)
    (scan_cutAll isBlind_infoForm isReader_infoForm (converted [] t))
  have hsided : ((sided (converted [] t)).filter fun token =>
        IsSpared infoForm (converted [] t) token).map
        (fun token => (places token, token.kind, token.name)) =
      ((sided t).filter fun token => IsSpared infoForm (converted [] t) token).map
        fun token => (places token, token.kind.onPage, token.name) := by
    rw [sided_converted, List.filter_map, List.map_map]
    rfl
  rw [← hsided, sided, sided, List.filter_filter, List.filter_filter]
  simp only [List.filter_map, List.filter_filter, Function.comp_def] at hall
  simp only [Bool.and_comm _ (Kind.isSided _)]
  exact hall

theorem signOf?_convertBody (body : Text) : signOf? (convertBody [] body) =
    (signOf? body).map fun (kind, name) => (kind.onPage, name) := by
  rw [signOf?, signOf?, kind?, kind?, nameOf, nameOf, classify_convertBody]
  cases hclass : classify body with
  | none => rfl
  | some read =>
      obtain ⟨kind, attributes⟩ := read
      simp only [Option.map_some, Option.filter_some, Kind.isSided_onPage, Kind.nameKey?_onPage]
      split <;> rfl

/-- Where no comment is begun that is not ended, the markers come out as they are. -/
theorem signs_toPage_of_isDroppable {t : Text} (h : IsDroppable t) :
    signs (toPage [] t) = (signs t).map fun (kind, name) => (kind.onPage, name) := by
  have hfilter : ∀ l : List Text, (l.filter fun body => (signOf? body).isSome).filterMap signOf? =
      l.filterMap signOf? := by
    intro l
    rw [List.filterMap_filter]
    refine List.filterMap_congr fun body _ => ?_
    cases signOf? body <;> rfl
  have hkind : ∀ body, (signOf? body).isSome = true → ∃ kind, kind? body = some kind := by
    intro body hbody
    rw [signOf?, Option.isSome_map] at hbody
    obtain ⟨kind, hkind⟩ := Option.isSome_iff_exists.mp hbody
    exact ⟨kind, (Option.filter_eq_some_iff.mp hkind).1⟩
  rw [signs_eq, signs_eq, ← hfilter, filter_bodies_toPage areQuiet_nil h hkind, hfilter,
    List.filterMap_map, List.map_filterMap]
  exact List.filterMap_congr fun body _ => signOf?_convertBody body

/-- Dropping the comments on the template leaves every region and parameter marker that it spares,
in its place, and those that come out whole are no others. So the markers come out in their places
if and only if none is hit and none is made up, and then they say the same on the page's side. No
marker is hit or made up in a text that begins no comment without ending it. -/
theorem signs_toPage (t : Text) :
    ((sided (toPage [] t)).filter fun token => IsWhole infoForm (converted [] t) token).map
        (fun token => (origins infoForm (converted [] t) token, token.kind, token.name)) =
      ((sided t).filter fun token => IsSpared infoForm (converted [] t) token).map
        (fun token => (places token, token.kind.onPage, token.name)) ∧
    ((sided (toPage [] t)).map
        (fun token => (origins infoForm (converted [] t) token, token.kind, token.name)) =
      (sided t).map (fun token => (places token, token.kind.onPage, token.name)) ↔
        DropsCleanly t) ∧
    (DropsCleanly t ∨ IsDroppable t →
      signs (toPage [] t) = (signs t).map fun (kind, name) => (kind.onPage, name)) := by
  have hpart := sided_toPage t
  have hclean : DropsCleanly t → (sided (toPage [] t)).map
        (fun token => (origins infoForm (converted [] t) token, token.kind, token.name)) =
      (sided t).map fun token => (places token, token.kind.onPage, token.name) := by
    intro hclean
    rwa [List.filter_eq_self.mpr fun token htoken => decide_eq_true (hclean.whole token htoken),
      List.filter_eq_self.mpr fun token htoken => decide_eq_true (hclean.spared token htoken)]
      at hpart
  refine ⟨hpart, ⟨fun hsame => ?_, hclean⟩, ?_⟩
  · have hwhole : ∀ token ∈ sided (toPage [] t), IsWhole infoForm (converted [] t) token := by
      intro token htoken
      have hmem := List.mem_map_of_mem (f := fun token =>
        (origins infoForm (converted [] t) token, token.kind, token.name)) htoken
      rw [hsame] at hmem
      obtain ⟨token', -, heq⟩ := List.mem_map.mp hmem
      have horigins : origins infoForm (converted [] t) token = places token' :=
        (congrArg Prod.fst heq).symm
      have hlength : (origins infoForm (converted [] t) token).length = token.stop - token.start :=
        length_origins isBlind_infoForm isReader_infoForm (List.mem_filter.mp htoken).1
      rw [horigins, places, List.length_range'] at hlength
      exact ⟨token'.start, by rw [horigins, places, hlength]⟩
    refine ⟨?_, hwhole⟩
    rw [List.filter_eq_self.mpr fun token htoken => decide_eq_true (hwhole token htoken), hsame]
      at hpart
    have hlength := congrArg List.length hpart
    rw [List.length_map, List.length_map] at hlength
    intro token htoken
    exact of_decide_eq_true (List.length_filter_eq_length_iff.mp hlength.symm token htoken)
  · rintro (h | h)
    · have hsigns := congrArg (List.map Prod.snd) (hclean h)
      rw [List.map_map, List.map_map] at hsigns
      rw [signs, signs, List.map_map]
      exact hsigns
    · exact signs_toPage_of_isDroppable h

/-- A comment on the template between a region and a parameter, and an opener that stays open. -/
def describedTemplate : Text :=
  "<!-- TemplateBeginEditable name=\"a\" --><!-- TemplateInfo x --><!-- TemplateEndEditable -->" ++
    "<!-- y <!-- TemplateParam name=\"p\" value=\"1\" -->"

theorem signs_toPage_describedTemplate : DropsCleanly describedTemplate ∧
    signs (toPage [] describedTemplate) =
      ([(.regionBegin .page, "a"), (.regionEnd .page, ""), (.param .page, "p")] :
        List (Kind × Text)) := by
  have hclean : DropsCleanly describedTemplate := by
    rw [describedTemplate]
    repeat rw [Text.ofString_ofList]
    decide +kernel
  refine ⟨hclean, ((signs_toPage describedTemplate).2.2 (Or.inl hclean)).trans ?_⟩
  rw [describedTemplate]
  repeat rw [Text.ofString_ofList]
  decide +kernel

/-- A comment on the template that is not ended takes the marker behind it along. -/
example :
    signs (toPage [] "A<!-- TemplateInfo <!--TemplateBeginEditable name=\"a\"-->B") = [] ∧
      signs "A<!-- TemplateInfo <!--TemplateBeginEditable name=\"a\"-->B" =
        ([(.regionBegin .template, "a")] : List (Kind × Text)) := by
  repeat rw [Text.ofString_ofList]
  decide +kernel

/-- What stands on both sides of a comment on the template may make up a marker. -/
example :
    signs (toPage [] "<!-<!-- TemplateInfo -->- InstanceEndEditable -->") =
        ([(.regionEnd .page, "")] : List (Kind × Text)) ∧
      signs "<!-<!-- TemplateInfo -->- InstanceEndEditable -->" = [] := by
  repeat rw [Text.ofString_ofList]
  decide +kernel

end Skeleton

end Stencil

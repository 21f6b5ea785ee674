import Stencil.Proofs.Disk.Reach

/-!
# What file operations leave alone

Every operation on a disk makes directories on the way to where it goes (`Grows`) and then changes
one file, or fails (`replace_cases`, `copy_cases`); removing a directory removes what lies below it
and nothing else (`removeTree_cases`, `Loses`).
-/

namespace Stencil

open Stencil.Path (collapse parentName IsName)

namespace Tree

variable {t t' t'' : Tree} {here loc : Loc} {p root : Path} {parts : List Text} {bytes : Bytes}
  {P Q : Loc → Prop}

/-! ## Growing -/

/-- Nothing has happened but that directories have been made, at locations of a kind. -/
def Grows (P : Loc → Prop) (t t' : Tree) : Prop := ∀ loc, t'.node? loc = t.node? loc ∨
  t.node? loc = none ∧ t'.node? loc = some .dir ∧ P loc

namespace Grows

theorem refl (t : Tree) : Grows P t t := fun _ => Or.inl rfl

theorem trans (h : Grows P t t') (h' : Grows P t' t'') : Grows P t t'' := by
  intro loc
  rcases h loc with heq | ⟨hnone, hdir, hloc⟩
  · rw [← heq]
    exact h' loc
  · rcases h' loc with heq' | ⟨hnone', -⟩
    · exact Or.inr ⟨hnone, heq'.trans hdir, hloc⟩
    · rw [hdir] at hnone'
      cases hnone'

theorem mono (h : Grows P t t') (hPQ : ∀ loc, P loc → Q loc) : Grows Q t t' := fun loc =>
  (h loc).imp_right fun ⟨hnone, hdir, hloc⟩ => ⟨hnone, hdir, hPQ loc hloc⟩

theorem node?_of_ne_none (h : Grows P t t') (hloc : t.node? loc ≠ none) :
    t'.node? loc = t.node? loc :=
  (h loc).resolve_right fun hgrown => hloc hgrown.1

/-- Where all is there already nothing is made. -/
theorem of_there (h : Grows P t t') (hthere : ∀ loc, P loc → t.node? loc ≠ none) : Grows Q t t' :=
  fun loc => Or.inl ((h loc).resolve_right fun hmade => hthere loc hmade.2.2 hmade.1)

theorem node?_of_not (h : Grows P t t') (hloc : ¬ P loc) : t'.node? loc = t.node? loc :=
  (h loc).resolve_right fun hgrown => hloc hgrown.2.2

theorem dir (h : Grows P t t') (hdir : t.node? loc = some .dir) : t'.node? loc = some .dir := by
  rw [h.node?_of_ne_none (by rw [hdir]; exact Option.some_ne_none _), hdir]

theorem file_iff (h : Grows P t t') {bytes : Bytes} :
    t'.node? loc = some (.file bytes) ↔ t.node? loc = some (.file bytes) := by
  rcases h loc with heq | ⟨hnone, hdir, -⟩
  · rw [heq]
  · rw [hnone, hdir]
    constructor <;> intro heq <;> cases heq

theorem follow (h : Grows P t t') {parts : List Text} {target : Loc}
    (hfollow : t.follow loc parts = .ok target) : t'.follow loc parts = .ok target := by
  rw [eq_collapse_of_follow hfollow]
  exact follow_of_dirs fun q hq hne => h.dir (dirs_of_follow hfollow hq hne)

theorem locate (h : Grows P t t') {target : Loc} (hlocate : t.locate here p = .ok target) :
    t'.locate here p = .ok target :=
  h.follow hlocate

theorem isDir (h : Grows P t t') (hdir : t.isDir here p = true) : t'.isDir here p = true := by
  obtain ⟨hlocate, hnode⟩ := isDir_iff.mp hdir
  exact isDir_iff.mpr ⟨h.locate hlocate, h.dir hnode⟩

end Grows

/-- A location that is passed on the way along a path, its end included. -/
def OnWay (here : Loc) (p : Path) (loc : Loc) : Prop :=
  ∃ q, q <+: p.parts ∧ loc = collapse (start here p) q

theorem OnWay.of_parent (h : OnWay here p.parent loc) : OnWay here p loc := by
  obtain ⟨q, hq, rfl⟩ := h
  exact ⟨q, hq.trans (List.dropLast_prefix _), rfl⟩

theorem onWay_place (here : Loc) (p : Path) : OnWay here p (place here p) :=
  ⟨p.parts, List.prefix_rfl, rfl⟩

/-- All on the way to a file that can be read is a directory. -/
theorem dir_of_onWay_parent (hread : t.read here p = .ok bytes) (hnamed : p.parts ≠ [])
    (h : OnWay here p.parent loc) : t.node? loc = some .dir := by
  obtain ⟨q, hq, rfl⟩ := h
  obtain ⟨hlocate, -⟩ := read_eq_ok.mp hread
  rw [locate_eq] at hlocate
  refine dirs_of_follow hlocate (hq.trans (List.dropLast_prefix _)) fun heq => ?_
  have hlength := hq.length_le
  have hpos := List.length_pos_iff.mpr hnamed
  rw [heq, Path.parent, List.length_dropLast] at hlength
  omega

/-- Below a directory the way leads through it. -/
theorem onWay_below (h : OnWay here ⟨root.root, root.parts ++ parts⟩ loc)
    (hparts : ∀ part ∈ parts, IsName part) :
    OnWay here root loc ∨ ∃ q, q <+: parts ∧ loc = place here root ++ q := by
  obtain ⟨q, hq, rfl⟩ := h
  rcases List.prefix_or_prefix_of_prefix hq (List.prefix_append root.parts parts) with
    hroot | ⟨rest, rfl⟩
  · exact Or.inl ⟨q, hroot, rfl⟩
  · have hrest : rest <+: parts := (List.prefix_append_right_inj _).mp hq
    exact Or.inr ⟨rest, hrest,
      place_append here root fun part hpart => hparts part (hrest.subset hpart)⟩

/-- The way to a directory leads nowhere below it, if the path has no double dots. -/
theorem OnWay.not_below (h : OnWay here root loc) (hdots : parentName ∉ root.parts) (name : Text) :
    ¬ place here root ++ [name] <+: loc := by
  obtain ⟨q, hq, rfl⟩ := h
  intro hbelow
  have hlength := hbelow.length_le
  rw [place, Path.collapse_of_not_mem hdots,
    Path.collapse_of_not_mem fun hmem => hdots (hq.subset hmem)] at hlength
  have := hq.length_le
  simp only [List.length_append, List.length_singleton] at hlength
  omega

/-- Below a directory that the way does not pass nothing lies on the way. -/
theorem not_prefix_of_onWay {name : Text}
    (hroot : ∀ loc, OnWay here root loc → ¬ place here root ++ [name] <+: loc)
    (hparts : ∀ part ∈ parts, IsName part) (hhead : ∀ part ∈ parts.head?, part ≠ name)
    (h : OnWay here ⟨root.root, root.parts ++ parts⟩ loc) : ¬ place here root ++ [name] <+: loc := by
  intro hbelow
  rcases onWay_below h hparts with hway | ⟨q, hq, rfl⟩
  · exact hroot loc hway hbelow
  · obtain ⟨rest, rfl⟩ := (List.prefix_append_right_inj _).mp hbelow
    obtain ⟨rest', rfl⟩ := hq
    exact hhead name rfl rfl

/-! ## Making directories -/

theorem parts_eq {name : Text} (hname : p.parts.getLast? = some name) :
    p.parts = p.parent.parts ++ [name] := by
  obtain ⟨init, hinit⟩ := List.getLast?_eq_some_iff.mp hname
  rw [Path.parent, hinit, List.dropLast_concat]

theorem place_eq_into {name : Text} (hname : p.parts.getLast? = some name) :
    place here p = into (place here p.parent) name := by
  show collapse (start here p) p.parts = into (collapse (start here p) p.parent.parts) name
  rw [parts_eq hname, Path.collapse_append, collapse_cons, collapse]

theorem place_eq_append {name : Text} (hname : p.parts.getLast? = some name)
    (hdots : name ≠ parentName) : place here p = place here p.parent ++ [name] := by
  rw [place_eq_into hname, into, if_neg hdots]

/-- A path can be followed if what is above it is a directory. -/
theorem locate_iff {name : Text} (hname : p.parts.getLast? = some name) :
    t.locate here p = .ok (place here p) ↔ t.isDir here p.parent = true := by
  rw [isDir_iff, locate_eq, locate_eq, parts_eq hname, follow_append, follow_cons, follow,
    place_eq_into hname]
  constructor
  · rintro ⟨hfollow, hdir, -⟩
    exact ⟨hfollow, hdir⟩
  · rintro ⟨hfollow, hdir⟩
    exact ⟨hfollow, hdir, rfl⟩

theorem makeDir_eq_ok (h : t.makeDir here p = .ok t') :
    ∃ name, p.parts.getLast? = some name ∧ name ≠ parentName ∧ t.isDir here p.parent = true ∧
      t.node? (place here p) = none ∧ t' = t.put (place here p) .dir := by
  rw [makeDir] at h
  cases hname : p.parts.getLast? with
  | none => rw [hname] at h; cases h
  | some name =>
      rw [hname] at h
      dsimp only at h
      split at h
      · cases h
      · cases h
      · next loc hlook =>
        obtain ⟨rfl, hparent⟩ := look_eq_ok.mp hlook
        split at h
        · cases h
        · next hblocked =>
          rw [Bool.or_eq_true, not_or, decide_eq_true_eq, Bool.not_eq_true,
            Option.isSome_eq_false_iff, Option.isNone_iff_eq_none] at hblocked
          obtain ⟨hdots, hfree⟩ := hblocked
          have hplace : place here p = place here p.parent ++ [name] := place_eq_append hname hdots
          rw [← hplace] at hfree h
          exact ⟨name, rfl, hdots, isDir_iff.mpr hparent, hfree, (Except.ok.inj h).symm⟩

theorem makeDir_of_isDir (h : t.isDir here p = true) : t.makeDir here p = .error .exists := by
  rw [makeDir]
  cases hname : p.parts.getLast? with
  | none => rfl
  | some name =>
      obtain ⟨hlocate, hdir⟩ := isDir_iff.mp h
      have hparent := isDir_iff.mp ((locate_iff hname).mp hlocate)
      dsimp only
      rw [look_eq_ok.mpr ⟨rfl, hparent⟩]
      dsimp only
      by_cases hdots : name = parentName
      · rw [decide_eq_true hdots, Bool.true_or, if_pos rfl]
      · rw [← place_eq_append hname hdots, hdir, Option.isSome_some, Bool.or_true, if_pos rfl]

theorem makeDir_spec (h : t.WellFormed) (hmade : t.makeDir here p = .ok t') :
    Grows (OnWay here p) t t' ∧ t'.WellFormed ∧ t'.isDir here p = true := by
  obtain ⟨name, hname, hdots, hparent, hfree, rfl⟩ := makeDir_eq_ok hmade
  have hplace : place here p = place here p.parent ++ [name] := place_eq_append hname hdots
  have hne : place here p ≠ [] := by
    rw [hplace]
    exact List.append_ne_nil_of_right_ne_nil _ (List.cons_ne_nil _ _)
  have hgrows : Grows (OnWay here p) t (t.put (place here p) .dir) := by
    intro loc
    rw [node?_put t hne]
    by_cases hloc : loc = place here p
    · rw [if_pos hloc, hloc]
      exact Or.inr ⟨hfree, rfl, onWay_place here p⟩
    · rw [if_neg hloc]
      exact Or.inl rfl
  refine ⟨hgrows, ?_, isDir_iff.mpr ⟨(locate_iff hname).mpr (hgrows.isDir hparent), ?_⟩⟩
  · rw [hplace] at hfree ⊢
    exact h.put_dir (isDir_iff.mp hparent).2 hfree
  · rw [node?_put t hne, if_pos rfl]

theorem orThere_spec (here : Loc) (p : Path) (errno : Errno) (h : t.WellFormed) :
    Grows (OnWay here p) t (t.orThere here p errno).1 ∧ (t.orThere here p errno).1.WellFormed ∧
      ((t.orThere here p errno).2 = .ok () → (t.orThere here p errno).1.isDir here p = true) := by
  refine ⟨Grows.refl t, h, fun hok => ?_⟩
  have hdir : t.isDir here p = true := by
    by_contra hdir
    rw [orThere, if_neg hdir] at hok
    cases hok
  exact hdir

theorem makeDirs_of_isDir (h : t.isDir here p = true) : t.makeDirs here p = (t, .ok ()) := by
  rw [makeDirs, makeDir_of_isDir h]
  dsimp only
  rw [orThere, if_pos h]

/-- Directories are made on the way to a directory, which is there if nothing failed. -/
theorem makeDirs_spec (h : t.WellFormed) (here : Loc) (p : Path) :
    Grows (OnWay here p) t (t.makeDirs here p).1 ∧ (t.makeDirs here p).1.WellFormed ∧
      ((t.makeDirs here p).2 = .ok () → (t.makeDirs here p).1.isDir here p = true) := by
  rw [makeDirs]
  split
  · next made hmade =>
    obtain ⟨hgrows, hmadeWell, hdir⟩ := makeDir_spec h hmade
    exact ⟨hgrows, hmadeWell, fun _ => hdir⟩
  · by_cases hparts : p.parts = []
    · rw [dif_pos hparts]
      exact ⟨Grows.refl t, h, fun heq => by cases heq⟩
    · rw [dif_neg hparts]
      obtain ⟨hgrows, haboveWell, -⟩ := makeDirs_spec h here p.parent
      replace hgrows := hgrows.mono fun loc => OnWay.of_parent (p := p)
      split
      · next above e heq =>
        rw [heq] at hgrows haboveWell
        exact ⟨hgrows, haboveWell, fun heq => by cases heq⟩
      · next above heq =>
        rw [heq] at hgrows haboveWell
        split
        · next made hmade =>
          obtain ⟨hgrows', hmadeWell, hdir⟩ := makeDir_spec haboveWell hmade
          exact ⟨hgrows.trans hgrows', hmadeWell, fun _ => hdir⟩
        · exact ⟨hgrows, haboveWell, fun heq => by cases heq⟩
        · obtain ⟨hgrows', hwell, hdir⟩ := orThere_spec here p _ haboveWell
          exact ⟨hgrows.trans hgrows', hwell, hdir⟩
  · exact orThere_spec here p _ h
termination_by p.parts.length
decreasing_by
  have := List.length_pos_iff.mpr hparts
  simp only [Path.parent, List.length_dropLast]
  omega

/-! ## Changing one file -/

/-- A path to something other than a directory has a last component. -/
theorem exists_name (h : t.WellFormed) (hlocate : t.locate here p = .ok (place here p))
    (hnode : t.node? (place here p) ≠ some .dir)
    (hparts : p.parts = [] → t.node? (place here p) = some .dir) :
    ∃ name, p.parts.getLast? = some name ∧ name ≠ parentName ∧ t.isDir here p.parent = true := by
  cases hname : p.parts.getLast? with
  | none => exact absurd (hparts (List.getLast?_eq_none_iff.mp hname)) hnode
  | some name =>
      have hparent := (locate_iff hname).mp hlocate
      refine ⟨name, rfl, ?_, hparent⟩
      rintro rfl
      have hdir := (isDir_iff.mp hparent).2
      refine hnode ?_
      rw [place_eq_into hname, into, if_pos rfl]
      rcases List.eq_nil_or_concat (place here p.parent) with hnil | ⟨init, last, hinit⟩
      · rw [hnil] at hdir ⊢
        exact hdir
      · rw [List.concat_eq_append] at hinit
        rw [hinit, List.dropLast_concat]
        refine h _ last ?_
        rw [← hinit, hdir]
        exact Option.some_ne_none _

/-- What a change of one file makes of a disk. -/
structure Puts (here : Loc) (p : Path) (bytes : Bytes) (t t' : Tree) : Prop where
  locate : t.locate here p = .ok (place here p)
  free : t.node? (place here p) ≠ some .dir
  named : p.parts ≠ []
  eq : t' = t.put (place here p) (.file bytes)

namespace Puts

variable {bytes : Bytes}

theorem parent (h : Puts here p bytes t t') (ht : t.WellFormed) :
    ∃ name, place here p = place here p.parent ++ [name] ∧
      t.node? (place here p.parent) = some .dir := by
  obtain ⟨name, hname, hdots, hparent⟩ :=
    exists_name ht h.locate h.free fun hparts => absurd hparts h.named
  exact ⟨name, place_eq_append hname hdots, (isDir_iff.mp hparent).2⟩

theorem node? (h : Puts here p bytes t t') (ht : t.WellFormed) (loc : Loc) :
    t'.node? loc = if loc = place here p then some (.file bytes) else t.node? loc := by
  obtain ⟨name, hplace, -⟩ := h.parent ht
  rw [h.eq]
  exact node?_put t (by rw [hplace]; simp) _ loc

theorem wellFormed (h : Puts here p bytes t t') (ht : t.WellFormed) : t'.WellFormed := by
  obtain ⟨name, hplace, hdir⟩ := h.parent ht
  have hfree := h.free
  rw [h.eq]
  rw [hplace] at hfree ⊢
  exact ht.put_file hdir hfree

end Puts

/-- A file is replaced whole, or not at all. -/
theorem replace_cases (h : t.WellFormed) (here : Loc) (tag : Text) (p : Path) (bytes : Bytes) :
    ∃ u, Grows (OnWay here p.parent) t u ∧ u.WellFormed ∧
      ((∃ e, t.replace here tag p bytes = (u, .error e)) ∨
        ∃ t', t.replace here tag p bytes = (t', .ok ()) ∧ Puts here p bytes u t' ∧
          u.isDir here p.parent = true) := by
  obtain ⟨hgrows, hwell, hdir⟩ := makeDirs_spec h here p.parent
  refine ⟨_, hgrows, hwell, ?_⟩
  rw [replace]
  split
  · next u e heq => exact Or.inl ⟨e, by rw [heq]⟩
  · next u heq =>
    rw [heq] at hwell hdir ⊢
    replace hdir := hdir rfl
    dsimp only
    split
    · exact Or.inl ⟨_, rfl⟩
    · split
      · exact Or.inl ⟨_, rfl⟩
      · next loc hlocate =>
        obtain rfl := place_of_locate hlocate
        split
        · exact Or.inl ⟨_, rfl⟩
        · next hfree =>
          refine Or.inr ⟨_, rfl, ⟨hlocate, hfree, fun hparts => ?_, rfl⟩, hdir⟩
          have hparent : p.parent = p := by
            rw [Path.parent, hparts]
            exact congrArg (Path.mk p.root) hparts.symm
          rw [hparent] at hdir
          exact hfree (isDir_iff.mp hdir).2

/-- A file that can be read is replaced, and nothing else happens. -/
theorem replace_of_read (ht : t.WellFormed) {old : Bytes} (hread : t.read here p = .ok old)
    (hnamed : p.parts ≠ []) (tag : Text) (bytes : Bytes) :
    ∃ t', t.replace here tag p bytes = (t', .ok ()) ∧ Puts here p bytes t t' := by
  obtain ⟨hlocate, hnode⟩ := read_eq_ok.mp hread
  have hfree : t.node? (place here p) ≠ some .dir := by
    rw [hnode]
    exact fun heq => by cases heq
  obtain ⟨name, hname, hdots, hparent⟩ :=
    exists_name ht hlocate hfree fun hparts => absurd hparts hnamed
  have hlast : p.name ≠ Path.parentName := by
    rw [Path.name, hname, Option.getD_some]
    exact hdots
  refine ⟨_, ?_, hlocate, hfree, hnamed, rfl⟩
  rw [replace, makeDirs_of_isDir hparent]
  dsimp only
  rw [if_neg hlast, hlocate]
  dsimp only
  rw [hnode]

/-- The path that a file is copied to: a directory takes it under its own name. -/
def goal (t : Tree) (here : Loc) (source target : Path) : Path :=
  if t.isDir here target then target.child source.name else target

theorem goal_named {source target : Path} (hdir : t.isDir here target.parent = true)
    (h : (t.goal here source target).parts = []) :
    t.node? (place here (t.goal here source target)) = some .dir := by
  by_cases hinside : t.isDir here target = true
  · rw [goal, if_pos hinside, Path.child, Path.join] at h ⊢
    by_cases habsolute : (Path.ofText source.name).isAbsolute = true
    · rw [if_pos habsolute] at h ⊢
      rw [place, h, start, if_pos habsolute]
      rfl
    · rw [if_neg habsolute] at h ⊢
      obtain ⟨hparts, hname⟩ := List.append_eq_nil_iff.mp h
      have hplace := (isDir_iff.mp hinside).2
      rw [place] at hplace ⊢
      rw [h]
      rwa [hparts] at hplace
  · rw [goal, if_neg hinside] at h ⊢
    have hparent : target.parent = target := by
      rw [Path.parent, h]
      exact congrArg (Path.mk target.root) h.symm
    exact (isDir_iff.mp (hparent ▸ hdir)).2

/-- A file is copied whole, or not at all. -/
theorem copy_cases (h : t.WellFormed) (here : Loc) (source target : Path) :
    ∃ u, Grows (OnWay here target.parent) t u ∧ u.WellFormed ∧
      ((∃ e, t.copy here source target = (u, .error e)) ∨
        ∃ bytes t', t.copy here source target = (t', .ok ()) ∧ t.read here source = .ok bytes ∧
          Puts here (u.goal here source target) bytes u t' ∧
            place here (u.goal here source target) ≠ place here source ∧
            u.isDir here target.parent = true) := by
  rw [copy]
  split
  · next loc bytes hlook =>
    obtain ⟨rfl, hread⟩ := look_eq_ok.mp hlook
    obtain ⟨hgrows, hwell, hdir⟩ := makeDirs_spec h here target.parent
    refine ⟨_, hgrows, hwell, ?_⟩
    split
    · next u e heq => exact Or.inl ⟨e, by rw [heq]⟩
    · next u heq =>
      rw [heq] at hwell hdir ⊢
      replace hdir := hdir rfl
      have hgoal : (if u.isDir here target = true then target.child source.name else target) =
          u.goal here source target := rfl
      dsimp only
      rw [hgoal]
      split
      · exact Or.inl ⟨_, rfl⟩
      · next loc hlocate =>
        obtain rfl := place_of_locate hlocate
        split
        · exact Or.inl ⟨_, rfl⟩
        · next hother =>
          split
          · exact Or.inl ⟨_, rfl⟩
          · next hfree =>
            exact Or.inr ⟨bytes, _, rfl, read_eq_ok.mpr hread,
              ⟨hlocate, hfree, fun hparts => hfree (goal_named hdir hparts), rfl⟩, hother, hdir⟩
  · exact ⟨t, Grows.refl t, h, Or.inl ⟨_, rfl⟩⟩

/-! ## Removing -/

theorem WellFormed.erase (h : t.WellFormed) (hloc : loc ≠ [])
    (hbelow : ∀ rest, rest ≠ [] → t.node? (loc ++ rest) = none) : (t.erase loc).WellFormed := by
  intro other part hnode
  have hne : other ≠ loc := by
    rintro rfl
    rw [node?_erase t hloc, hbelow [part] (List.cons_ne_nil _ _)] at hnode
    split at hnode <;> exact hnode rfl
  rw [node?_erase t hloc, if_neg hne]
  rw [node?_erase t hloc] at hnode
  split at hnode
  · exact absurd rfl hnode
  · exact h _ _ hnode

theorem WellFormed.eraseBelow (h : t.WellFormed) (loc : Loc) : (t.eraseBelow loc).WellFormed := by
  intro other part hnode
  rw [node?_eraseBelow] at hnode ⊢
  by_cases hbelow : isBelow loc other = true
  · -- what lies deeper has gone, too
    obtain ⟨rest, hrest, rfl⟩ := isBelow_iff.mp hbelow
    rw [if_pos (isBelow_iff.mpr ⟨rest ++ [part], by simp, by simp⟩)] at hnode
    exact absurd rfl hnode
  · rw [if_neg hbelow]
    split at hnode
    · exact absurd rfl hnode
    · exact h _ _ hnode

/-- Removing a directory takes away what lies below it, and in the end the directory. -/
theorem removeTree_cases (h : t.WellFormed) (here : Loc) (p : Path) :
    (t.removeTree here p).1.WellFormed ∧ ∀ loc, (t.removeTree here p).1.node? loc = t.node? loc ∨
      (t.removeTree here p).1.node? loc = none ∧ place here p <+: loc := by
  have hbelowFrame : ∀ loc, (t.eraseBelow (place here p)).node? loc = t.node? loc ∨
      (t.eraseBelow (place here p)).node? loc = none ∧ place here p <+: loc := by
    intro loc
    rw [node?_eraseBelow]
    by_cases hbelow : isBelow (place here p) loc = true
    · obtain ⟨rest, -, rfl⟩ := isBelow_iff.mp hbelow
      rw [if_pos hbelow]
      exact Or.inr ⟨rfl, List.prefix_append _ _⟩
    · rw [if_neg hbelow]
      exact Or.inl rfl
  rw [removeTree]
  split
  · exact ⟨h, fun _ => Or.inl rfl⟩
  · exact ⟨h, fun _ => Or.inl rfl⟩
  · next loc hlook =>
    obtain ⟨rfl, -⟩ := look_eq_ok.mp hlook
    have hbelowWell := h.eraseBelow (place here p)
    dsimp only
    split
    · exact ⟨hbelowWell, hbelowFrame⟩
    · next loc node hlookAgain =>
      obtain ⟨rfl, -⟩ := look_eq_ok.mp hlookAgain
      split
      · exact ⟨hbelowWell, hbelowFrame⟩
      · split
        · exact ⟨hbelowWell, hbelowFrame⟩
        · next hne =>
          refine ⟨hbelowWell.erase hne fun rest hrest => ?_, fun other => ?_⟩
          · rw [node?_eraseBelow, if_pos (isBelow_iff.mpr ⟨rest, hrest, rfl⟩)]
          · rw [node?_erase _ hne]
            by_cases hother : other = place here p
            · rw [if_pos hother, hother]
              exact Or.inr ⟨rfl, List.prefix_rfl⟩
            · rw [if_neg hother]
              exact hbelowFrame other

/-- Nothing has happened but that something has been removed at locations of a kind. -/
structure Loses (P : Loc → Prop) (t t' : Tree) : Prop where
  wellFormed : t'.WellFormed
  nodes : ∀ loc, t'.node? loc = t.node? loc ∨ t'.node? loc = none ∧ P loc

namespace Loses

theorem removeTree (ht : t.WellFormed) (here : Loc) (p : Path) :
    Loses (place here p <+: ·) t (t.removeTree here p).1 where
  wellFormed := (removeTree_cases ht here p).1
  nodes := (removeTree_cases ht here p).2

theorem node? (h : Loses P t t') (hloc : ¬ P loc) : t'.node? loc = t.node? loc :=
  (h.nodes loc).resolve_right fun hgone => hloc hgone.2

theorem eq_none (h : Loses P t t') (hnone : t.node? loc = none) : t'.node? loc = none :=
  (h.nodes loc).elim (fun heq => heq.trans hnone) fun hgone => hgone.1

theorem of_dir (h : Loses P t t') (hdir : t'.node? loc = some .dir) : t.node? loc = some .dir := by
  rcases h.nodes loc with heq | ⟨hnone, -⟩
  · exact heq.symm.trans hdir
  · cases hnone.symm.trans hdir

/-- A file that can be read stays so while nothing on its way is removed. -/
theorem read (h : Loses P t t') (hway : ∀ loc, OnWay here p loc → ¬ P loc)
    (hread : t.read here p = .ok bytes) : t'.read here p = .ok bytes := by
  obtain ⟨hlocate, hnode⟩ := read_eq_ok.mp hread
  refine read_eq_ok.mpr ⟨?_, (h.node? (hway _ (onWay_place here p))).trans hnode⟩
  rw [locate_eq] at hlocate ⊢
  refine follow_of_dirs fun q hq hne => ?_
  rw [h.node? (hway _ ⟨q, hq, rfl⟩)]
  exact dirs_of_follow hlocate hq hne

end Loses

end Tree

end Stencil

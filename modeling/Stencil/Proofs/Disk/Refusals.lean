import Stencil.Proofs.Disk.Copying

/-!
# Copies among other changes

What is done on straight ways makes directories only above where files come (`Straight.replace`), and
only where nothing was (`Changes.fresh`). So of two disks that come from one by such changes neither has
a directory where the other has a file, and a copy comes to the same on both, unless a file has come
above where it goes. If it is refused on both then, it is refused alike (`Direct.copy_alike`).
-/

namespace Stencil

open Stencil.Path (collapse parentName IsName)

namespace Tree

variable {t t' t'' : Tree} {here loc : Loc} {p source target : Path} {parts : List Text}
  {bytes : Bytes} {errno errno' : Errno} {P T : Loc → Prop}

/-! ## Two disks that come from one -/

theorem bytes?_of_dir (hdir : t.node? loc = some .dir) : t.bytes? loc = none := by
  rw [bytes?, hdir]

namespace Changes

/-- Directories have come only where nothing was. -/
theorem fresh (h : Changes P T t t') : Changes (fun loc => P loc ∧ t.node? loc = none) T t t' where
  wellFormed := h.wellFormed
  dirs := h.dirs
  files := h.files
  grown loc hdir := by
    rcases h.grown loc hdir with hold | hP
    · exact Or.inl hold
    · by_cases hold : t.node? loc = some .dir
      · exact Or.inl hold
      · refine Or.inr ⟨hP, node?_eq_none_of hold (not_not.mp fun hfile => ?_)⟩
        exact h.files loc hfile (bytes?_of_dir hdir)
  spares := h.spares

/-- Where there is a file now no directory has come. -/
theorem except_file (h : Changes P T t t') (hfile : t'.bytes? loc ≠ none) :
    Changes (fun other => other ≠ loc ∧ P other) T t t' where
  wellFormed := h.wellFormed
  dirs := h.dirs
  files := h.files
  grown other hdir := (h.grown other hdir).imp_right fun hP =>
    ⟨fun heq => hfile (bytes?_of_dir (heq ▸ hdir)), hP⟩
  spares := h.spares

theorem not_dir_of_bytes? (h : Changes P T t t') (h' : Changes P T t t'')
    (hPT : ∀ loc, P loc → ¬ T loc) (hfile : t'.bytes? loc ≠ none) : t''.node? loc ≠ some .dir := by
  intro hdir
  rcases h'.grown loc hdir with hold | hP
  · exact hfile (bytes?_of_dir (h.dirs loc hold))
  · rw [h.bytes? (hPT loc hP)] at hfile
    exact h'.files loc hfile (bytes?_of_dir hdir)

end Changes

/-- The first file on the way is the same if neither disk has a directory where the other has a
file. -/
theorem Bars.errno_eq (h : Bars t here p errno) (h' : Bars t' here p errno')
    (hfile : ∀ loc, t.bytes? loc ≠ none → t'.node? loc ≠ some .dir)
    (hfile' : ∀ loc, t'.bytes? loc ≠ none → t.node? loc ≠ some .dir) : errno = errno' := by
  obtain ⟨q, hq, hbytes, hdirs, rfl⟩ := h
  obtain ⟨q', hq', hbytes', hdirs', rfl⟩ := h'
  have heq : q = q' := by
    by_contra hne
    rcases List.prefix_or_prefix_of_prefix hq hq' with hle | hle
    · exact hfile _ hbytes (hdirs' q hle hne)
    · exact hfile' _ hbytes' (hdirs q' hle (Ne.symm hne))
  rw [heq]

/-! ## Straight ways -/

/-- The way along a path begins in a directory and makes no detours. -/
structure Straight (t : Tree) (here : Loc) (p : Path) : Prop where
  wellFormed : t.WellFormed
  start : t.node? (start here p) = some .dir
  straight : ¬ IsDetour t here p

namespace Straight

theorem changes (h : Straight t here p) (hchanges : Changes P T t t') : Straight t' here p where
  wellFormed := hchanges.wellFormed
  start := hchanges.dirs _ h.start
  straight := hchanges.straight h.straight

/-- Behind a straight way names lead straight on. -/
theorem append (h : Straight t here p) (hparts : ∀ part ∈ parts, IsName part) :
    Straight t here ⟨p.root, p.parts ++ parts⟩ where
  wellFormed := h.wellFormed
  start := h.start
  straight := by
    rintro ⟨above, hstarts, hnone⟩
    rcases List.prefix_or_prefix_of_prefix hstarts (List.prefix_append p.parts parts) with
      hwithin | ⟨rest, hrest⟩
    · exact h.straight ⟨above, hwithin, hnone⟩
    · rcases List.eq_nil_or_concat rest with rfl | ⟨init, last, rfl⟩
      · rw [List.append_nil] at hrest
        exact h.straight ⟨above, hrest ▸ List.prefix_rfl, hnone⟩
      · -- then the double dot is one of the names
        rw [← hrest, List.prefix_append_right_inj] at hstarts
        rw [List.concat_eq_append, ← List.append_assoc] at hrest
        obtain rfl := List.singleton_inj.mp (List.append_inj_right' hrest rfl)
        refine (hparts parentName (hstarts.subset ?_)).ne_parentName rfl
        simp

/-- Directories are made above a file that is replaced, and nowhere else. -/
theorem replace (h : Straight t here p) (tag : Text) (bytes : Bytes) :
    Changes (fun loc => isBelow loc (place here p) = true) (· = place here p) t
      (t.replace here tag p bytes).1 :=
  (replace_changes h.wellFormed here tag p bytes).1.fresh.mono
    (fun _ hgrown => isBelow_of_onWay h.wellFormed h.start h.straight hgrown.1 hgrown.2)
    fun _ => And.right

end Straight

theorem bytes?_of_replace (ht : t.WellFormed) {tag : Text}
    (hdone : (t.replace here tag p bytes).2 = .ok ()) :
    (t.replace here tag p bytes).1.bytes? (place here p) = some bytes :=
  bytes?_eq_some.mpr (read_eq_ok.mp ((replace_changes ht here tag p bytes).2 hdone)).2

/-- Whoever can follow a path makes no detours. -/
theorem not_isDetour_of_locate (h : t.locate here p = .ok loc) : ¬ IsDetour t here p := by
  rintro ⟨above, hstarts, hnone⟩
  have hdir : t.node? (collapse (Tree.start here p) above) = some .dir := by
    refine dirs_of_follow h ((List.prefix_append _ _).trans hstarts) fun heq => ?_
    have hlength := hstarts.length_le
    rw [← heq, List.length_append, List.length_singleton] at hlength
    omega
  cases hnone.symm.trans hdir

/-! ## Copies -/

namespace Direct

/-- A copy that no directory keeps from being made is refused only because a file stands on its way. -/
theorem exists_bars (h : Direct t here source target) (ht : t.WellFormed)
    (hread : t.read here source = .ok bytes)
    (hfree : t.node? (t.landing here source target) ≠ some .dir)
    (hfails : (t.copy here source target).2 ≠ .ok ()) : ∃ errno, Bars t here target.parent errno := by
  refine (isClear_or_bars ht (mt IsDetour.of_parent h.target_straight)).resolve_left fun hclear => ?_
  rcases h.copy_of_clear ht hread hclear with ⟨hdir, -⟩ | ⟨-, -, -, -, -, hok⟩
  · exact hfree hdir
  · exact hfails hok

/-- A copy comes to the same on two disks that come from one, if it is refused on both should a file
have come above where it goes. -/
theorem copy_alike (h : Direct t here source target) (ht : t.WellFormed)
    (hread : t.read here source = .ok bytes) (h' : Changes P T t t') (h'' : Changes P T t t'')
    (hsource : ¬ T (place here source)) (hPT : ∀ loc, P loc → ¬ T loc)
    (hP : ∀ loc, P loc → ¬ place here target <+: loc)
    (hfails : ∀ loc, T loc → t.node? loc = none → isBelow loc (place here target) = true →
      (t'.copy here source target).2 ≠ .ok () ∧ (t''.copy here source target).2 ≠ .ok ()) :
    (t'.copy here source target).2 = (t''.copy here source target).2 := by
  by_cases hT : ∀ loc, T loc → t.node? loc = none → ¬ isBelow loc (place here target) = true
  · exact (h.copy_stable ht h' hsource hT hP).trans (h.copy_stable ht h'' hsource hT hP).symm
  · obtain ⟨loc, hloc⟩ := not_forall.mp hT
    obtain ⟨hTloc, hloc⟩ := Classical.not_imp.mp hloc
    obtain ⟨hnone, hbelow⟩ := Classical.not_imp.mp hloc
    obtain ⟨hfails', hfails''⟩ := hfails loc hTloc hnone (not_not.mp hbelow)
    have hstarts := prefix_landing ht h.proper hread target t
    have hfree : t.node? (t.landing here source target) ≠ some .dir := fun hdir => by
      obtain ⟨rest, hrest, heq⟩ := isBelow_iff.mp (not_not.mp hbelow)
      obtain ⟨rest', heq'⟩ := hstarts
      rw [heq, List.append_assoc] at heq'
      have habove : t.node? loc = some .dir :=
        ht.dir_above (List.append_ne_nil_of_left_ne_nil hrest rest')
          (by rw [heq', hdir]; exact Option.some_ne_none _)
      cases hnone.symm.trans habove
    have hbars : ∀ u, Changes P T t u → (u.copy here source target).2 ≠ .ok () →
        ∃ errno, Bars u here target.parent errno ∧
          (u.copy here source target).2 = .error (failure target.parent errno) := by
      intro u hu hrefused
      have hread' := hu.read hsource hread
      obtain ⟨errno, hbars⟩ := (h.of_changes hu).exists_bars hu.wellFormed hread' (by
        rw [hu.landing_eq ht h.target_straight fun hloc => hP _ hloc List.prefix_rfl]
        exact fun hdir => hfree ((hu.dir_iff fun hloc => hP _ hloc hstarts).mp hdir)) hrefused
      exact ⟨errno, hbars, by rw [copy_of_bars hread' hbars]⟩
    obtain ⟨errno, hbars', herror'⟩ := hbars t' h' hfails'
    obtain ⟨errno', hbars'', herror''⟩ := hbars t'' h'' hfails''
    rw [herror', herror'', hbars'.errno_eq hbars'' (fun _ => h'.not_dir_of_bytes? h'' hPT)
      fun _ => h''.not_dir_of_bytes? h' hPT]

end Direct

end Tree

end Stencil

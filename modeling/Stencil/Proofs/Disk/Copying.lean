import Stencil.Proofs.Disk.Detours

/-!
# Which copies are made

Whether a file can be copied is settled by the file, by what stands on the way to where it goes, and by
what is there. Directories are made unless a file stands on the way (`makeDirs_of_clear`,
`makeDirs_of_bars`). Without detours a copy that is refused leaves the disk as it is, and so does one
of what is there already (`Direct.copy_straight`), and what other copies change elsewhere makes no
difference (`Direct.copy_stable`).
-/

namespace Stencil

open Stencil.Path (collapse parentName IsName)

namespace Tree

variable {t t' u : Tree} {here loc : Loc} {p source target : Path} {bytes : Bytes} {errno : Errno}
  {P T : Loc → Prop}

/-! ## Ways without detours -/

theorem IsDetour.of_parent (h : IsDetour t here p.parent) : IsDetour t here p := by
  obtain ⟨above, hprefix, hnone⟩ := h
  exact ⟨above, hprefix.trans (List.dropLast_prefix _), hnone⟩

/-- From where something is missing on a way without detours names lead on, and all is missing. -/
theorem exists_rest (ht : t.WellFormed) (hstraight : ¬ IsDetour t here p) {q : List Text}
    (hq : q <+: p.parts) (hnone : t.node? (collapse (start here p) q) = none) :
    ∃ rest, p.parts = q ++ rest ∧ place here p = collapse (start here p) q ++ rest := by
  obtain ⟨rest, hrest⟩ := hq
  have hdots : parentName ∉ rest := by
    intro hmem
    obtain ⟨names, others, rfl, hnames⟩ := List.eq_append_cons_of_mem hmem
    refine hstraight ⟨q ++ names, ⟨others, ?_⟩, ?_⟩
    · rw [← hrest]
      simp only [List.append_assoc, List.singleton_append]
    · rw [Path.collapse_append, Path.collapse_of_not_mem hnames]
      cases names with
      | nil => rw [List.append_nil, hnone]
      | cons name names =>
          by_contra hthere
          rw [ht.dir_above (List.cons_ne_nil _ _) hthere] at hnone
          cases hnone
  refine ⟨rest, hrest.symm, ?_⟩
  rw [place, ← hrest, Path.collapse_append, Path.collapse_of_not_mem hdots]

/-- What is missing above the end of a way without detours lies above its place. -/
theorem isBelow_of_onWay (ht : t.WellFormed) (hstart : t.node? (start here p) = some .dir)
    (hstraight : ¬ IsDetour t here p) (hway : OnWay here p.parent loc) (hnone : t.node? loc = none) :
    isBelow loc (place here p) = true := by
  obtain ⟨q, hq, rfl⟩ := hway
  obtain ⟨rest, hrest, hplace⟩ := exists_rest ht hstraight (hq.trans (List.dropLast_prefix _)) hnone
  refine isBelow_iff.mpr ⟨rest, fun hnil => ?_, hplace⟩
  rw [hnil, List.append_nil] at hrest
  rw [Path.parent, hrest] at hq
  have hlength := hq.length_le
  rw [List.length_dropLast] at hlength
  have hempty : q = [] := List.length_eq_zero_iff.mp (by omega)
  rw [hempty] at hnone
  cases hstart.symm.trans hnone

/-- What is there at the end of such a way can be reached, or a file stands where the way turns. -/
theorem locate_or_file (ht : t.WellFormed) (hstraight : ¬ IsDetour t here p)
    (hnode : t.node? (place here p) ≠ none) : t.locate here p = .ok (place here p) ∨
      ∃ above, above ++ [parentName] <+: p.parts ∧
        t.bytes? (collapse (start here p) above) ≠ none := by
  refine (follow_or_turn ht hnode).imp_right ?_
  rintro ⟨above, hprefix, hturn⟩
  exact ⟨above, hprefix, fun hbytes => hstraight ⟨above, hprefix, node?_eq_none_of hturn hbytes⟩⟩

namespace Changes

theorem node?_ne_none (h : Changes P T t t') (hnode : t.node? loc ≠ none) : t'.node? loc ≠ none := by
  by_cases hdir : t.node? loc = some .dir
  · rw [h.dirs loc hdir]
    exact Option.some_ne_none _
  · intro hnone
    refine h.files loc (fun hbytes => hnode (node?_eq_none_of hdir hbytes)) ?_
    rw [Tree.bytes?, hnone]

theorem straight (h : Changes P T t t') (hstraight : ¬ IsDetour t here p) :
    ¬ IsDetour t' here p := by
  rintro ⟨above, hprefix, hnone⟩
  exact h.node?_ne_none (fun hnone' => hstraight ⟨above, hprefix, hnone'⟩) hnone

/-- What can be followed on a disk could be followed before, if its end was there. -/
theorem locate_back (h : Changes P T t t') (ht : t.WellFormed) (hstraight : ¬ IsDetour t here p)
    (hnode : t.node? (place here p) ≠ none) (hlocate : t'.locate here p = .ok (place here p)) :
    t.locate here p = .ok (place here p) := by
  rcases locate_or_file ht hstraight hnode with hlocate' | ⟨above, hprefix, hfile⟩
  · exact hlocate'
  · have hdir : t'.node? (collapse (start here p) above) = some .dir := by
      refine dirs_of_follow hlocate ((List.prefix_append _ _).trans hprefix) fun heq => ?_
      have hlength := hprefix.length_le
      rw [← heq, List.length_append, List.length_singleton] at hlength
      omega
    refine absurd ?_ (h.files _ hfile)
    rw [Tree.bytes?, hdir]

theorem isDir_eq (h : Changes P T t t') (ht : t.WellFormed) (hstraight : ¬ IsDetour t here p)
    (hP : ¬ P (place here p)) : t'.isDir here p = t.isDir here p := by
  rw [Bool.eq_iff_iff]
  refine ⟨fun hdir => ?_, isDir_of_dirs h.dirs⟩
  obtain ⟨hlocate, hnode⟩ := isDir_iff.mp hdir
  have hnode' := (h.dir_iff hP).mp hnode
  refine isDir_iff.mpr ⟨h.locate_back ht hstraight ?_ hlocate, hnode'⟩
  rw [hnode']
  exact Option.some_ne_none _

theorem unread (h : Changes P T t t') (ht : t.WellFormed) (hstraight : ¬ IsDetour t here p)
    (hT : ¬ T (place here p)) (hread : ∀ bytes, t.read here p ≠ .ok bytes) :
    ∀ bytes, t'.read here p ≠ .ok bytes := by
  intro bytes hread'
  obtain ⟨hlocate, hnode⟩ := read_eq_ok.mp hread'
  have hnode' : t.node? (place here p) = some (.file bytes) := by
    rw [← bytes?_eq_some, ← h.bytes? hT, bytes?_eq_some, hnode]
  refine hread bytes (read_eq_ok.mpr ⟨h.locate_back ht hstraight ?_ hlocate, hnode'⟩)
  rw [hnode']
  exact Option.some_ne_none _

end Changes

/-! ## Making directories -/

/-- No file stands on the way along a path. -/
def IsClear (t : Tree) (here : Loc) (p : Path) : Prop :=
  ∀ loc, OnWay here p loc → t.bytes? loc = none

/-- The first thing on the way along a path that is no directory is a file. The error tells whether
it is the end of the way. -/
def Bars (t : Tree) (here : Loc) (p : Path) (errno : Errno) : Prop :=
  ∃ q, q <+: p.parts ∧ t.bytes? (collapse (start here p) q) ≠ none ∧
    (∀ q', q' <+: q → q' ≠ q → t.node? (collapse (start here p) q') = some .dir) ∧
    errno = if q = p.parts then .exists else .notDirectory

theorem isClear_or_bars (ht : t.WellFormed) (hstraight : ¬ IsDetour t here p) :
    IsClear t here p ∨ ∃ errno, Bars t here p errno := by
  have hfirst : ∀ n, ∀ q, q.length = n → q <+: p.parts →
      t.bytes? (collapse (start here p) q) ≠ none → ∃ errno, Bars t here p errno := by
    intro n
    induction n using Nat.strongRecOn with
    | ind n ih =>
        intro q hn hq hfile
        have hnode : t.node? (collapse (start here p) q) ≠ none := fun hnone => hfile (by
          rw [bytes?, hnone])
        rcases follow_or_turn ht hnode with hfollow | ⟨above, hprefix, hturn⟩
        · exact ⟨_, q, hq, hfile, fun q' hq' hne => dirs_of_follow hfollow hq' hne, rfl⟩
        · have hlength := hprefix.length_le
          rw [List.length_append, List.length_singleton] at hlength
          refine ih above.length (by omega) above rfl
            (((List.prefix_append _ _).trans hprefix).trans hq) fun hbytes => ?_
          exact hstraight ⟨above, hprefix.trans hq, node?_eq_none_of hturn hbytes⟩
  by_cases hfile : ∃ q, q <+: p.parts ∧ t.bytes? (collapse (start here p) q) ≠ none
  · obtain ⟨q, hq, hfile⟩ := hfile
    exact Or.inr (hfirst q.length q rfl hq hfile)
  · refine Or.inl ?_
    rintro loc ⟨q, hq, rfl⟩
    exact not_not.mp fun hne => hfile ⟨q, hq, hne⟩

theorem Changes.bars (h : Changes P T t t') (hbars : Bars t here p errno) : Bars t' here p errno := by
  obtain ⟨q, hq, hfile, hdirs, herrno⟩ := hbars
  exact ⟨q, hq, h.files _ hfile, fun q' hq' hne => h.dirs _ (hdirs q' hq' hne), herrno⟩

theorem follow_of_file {parts rest : List Text} {part : Text}
    (hfollow : t.follow loc parts = .ok (collapse loc parts))
    (hfile : t.node? (collapse loc parts) = some (.file bytes)) :
    t.follow loc (parts ++ part :: rest) = .error .notDirectory := by
  induction parts generalizing loc with
  | nil =>
      rw [collapse] at hfile
      rw [List.nil_append, follow, hfile]
  | cons next parts ih =>
      rw [collapse_cons] at hfile hfollow
      obtain ⟨hdir, hfollow⟩ := follow_cons.mp hfollow
      rw [List.cons_append, follow, hdir]
      exact ih hfollow hfile

theorem Bars.not_isDir (h : Bars t here p errno) : t.isDir here p = false := by
  obtain ⟨q, hq, hfile, -, -⟩ := h
  refine Bool.eq_false_iff.mpr fun hdir => ?_
  obtain ⟨hlocate, hnode⟩ := isDir_iff.mp hdir
  by_cases hend : q = p.parts
  · rw [hend, ← place, Tree.bytes?, hnode] at hfile
    exact hfile rfl
  · rw [locate_eq] at hlocate
    rw [Tree.bytes?, dirs_of_follow hlocate hq hend] at hfile
    exact hfile rfl

theorem Bars.makeDir (h : Bars t here p errno) : t.makeDir here p = .error errno := by
  obtain ⟨q, ⟨rest, hrest⟩, hfile, hdirs, rfl⟩ := h
  obtain ⟨bytes, hbytes⟩ := Option.ne_none_iff_exists'.mp hfile
  have hnode := bytes?_eq_some.mp hbytes
  have hfollow : t.follow (start here p) q = .ok (collapse (start here p) q) :=
    follow_of_dirs hdirs
  rw [Tree.makeDir]
  cases hname : p.parts.getLast? with
  | none =>
      rw [List.getLast?_eq_none_iff.mp hname, List.append_eq_nil_iff] at hrest
      rw [if_pos (by rw [hrest.1, List.getLast?_eq_none_iff.mp hname])]
  | some name =>
      dsimp only
      rcases List.eq_nil_or_concat rest with rfl | ⟨init, last, rfl⟩
      · -- the file is at the end of the way
        rw [List.append_nil] at hrest
        have hlocate : t.locate here p = .ok (place here p) := by
          rw [locate_eq, place, ← hrest, hfollow]
        rw [if_pos hrest, look_eq_ok.mpr ⟨rfl, isDir_iff.mp ((locate_iff hname).mp hlocate)⟩]
        dsimp only
        by_cases hdots : name = parentName
        · rw [decide_eq_true hdots, Bool.true_or, if_pos rfl]
        · have hthere : t.node? (place here p.parent ++ [name]) = some (.file bytes) := by
            rw [← place_eq_append hname hdots, place, ← hrest, hnode]
          rw [hthere, Option.isSome_some, Bool.or_true, if_pos rfl]
      · rw [List.concat_eq_append] at hrest
        have hparent : p.parent.parts = q ++ init := by
          rw [Path.parent, ← hrest, ← List.append_assoc, List.dropLast_concat]
        rw [if_neg fun hend => by simp [← hend] at hrest]
        cases init with
        | nil =>
            rw [List.append_nil] at hparent
            have hlook : t.look here p.parent = .ok (place here p.parent, .file bytes) := by
              refine look_eq_ok.mpr ⟨rfl, ?_, ?_⟩
              · rw [locate_eq, place, hparent]
                exact hfollow
              · rw [place, hparent]
                exact hnode
            rw [hlook]
        | cons part init =>
            have hlook : t.look here p.parent = .error .notDirectory := by
              have hlocate : t.locate here p.parent = .error .notDirectory := by
                rw [locate_eq, hparent]
                exact follow_of_file hfollow hnode
              rw [look, hlocate]
              rfl
            rw [hlook]

/-- A file on the way keeps the directory from being made, and nothing happens. -/
theorem makeDirs_of_bars (h : Bars t here p errno) :
    t.makeDirs here p = (t, .error (failure p errno)) := by
  have hmake := h.makeDir
  have hsome : errno ≠ .noEntry := by
    obtain ⟨q, -, -, -, rfl⟩ := h
    split <;> exact fun heq => by cases heq
  rw [makeDirs, hmake]
  cases errno with
  | noEntry => exact absurd rfl hsome
  | _ =>
      dsimp only
      rw [orThere, h.not_isDir, if_neg Bool.false_ne_true]

theorem follow_error_cases {parts : List Text} (h : t.follow loc parts = .error errno) :
    errno = .noEntry ∨ ∃ q, q <+: parts ∧ t.bytes? (collapse loc q) ≠ none := by
  induction parts generalizing loc with
  | nil => cases h
  | cons part parts ih =>
      rw [follow] at h
      split at h
      · refine (ih h).imp_right ?_
        rintro ⟨q, hq, hfile⟩
        exact ⟨part :: q, List.cons_prefix_cons.mpr ⟨rfl, hq⟩, by rwa [collapse_cons]⟩
      · next bytes hfile =>
        refine Or.inr ⟨[], List.nil_prefix, ?_⟩
        rw [collapse, bytes?_eq_some.mpr hfile]
        exact Option.some_ne_none _
      · exact Or.inl (Except.error.inj h).symm

/-- In a directory that is there another one is made, or is there already. -/
theorem makeDir_of_parent (ht : t.WellFormed) (hparent : t.isDir here p.parent = true)
    (hfree : t.bytes? (place here p) = none) (hnamed : p.parts ≠ []) :
    (∃ made, t.makeDir here p = .ok made) ∨
      t.makeDir here p = .error .exists ∧ t.isDir here p = true := by
  by_cases hdir : t.isDir here p = true
  · exact Or.inr ⟨makeDir_of_isDir hdir, hdir⟩
  · obtain ⟨name, hname⟩ := Option.ne_none_iff_exists'.mp fun hnone =>
      hnamed (List.getLast?_eq_none_iff.mp hnone)
    have hlocate := (locate_iff hname).mpr hparent
    have hnode : t.node? (place here p) ≠ some .dir := fun hnode =>
      hdir (isDir_iff.mpr ⟨hlocate, hnode⟩)
    obtain ⟨name', hname', hdots, -⟩ :=
      exists_name ht hlocate hnode fun hnil => absurd hnil hnamed
    refine Or.inl ⟨t.put (place here p) .dir, ?_⟩
    have hnone := node?_eq_none_of hnode hfree
    rw [place_eq_append hname' hdots] at hnone ⊢
    rw [makeDir, hname']
    dsimp only
    rw [look_eq_ok.mpr ⟨rfl, isDir_iff.mp hparent⟩]
    dsimp only
    rw [hnone, decide_eq_false hdots, Option.isSome_none, Bool.or_false,
      if_neg Bool.false_ne_true]

theorem IsClear.of_parent (h : IsClear t here p) : IsClear t here p.parent :=
  fun loc hway => h loc hway.of_parent

/-- Where no file is in the way a directory is made or there already, or one above it is missing. -/
theorem makeDir_of_clear (ht : t.WellFormed) (hstart : t.node? (start here p) = some .dir)
    (hclear : IsClear t here p) : (∃ made, t.makeDir here p = .ok made) ∨
      t.makeDir here p = .error .noEntry ∨
      t.makeDir here p = .error .exists ∧ t.isDir here p = true := by
  by_cases hnamed : p.parts = []
  · have hdir : t.isDir here p = true := by
      refine isDir_iff.mpr ⟨?_, ?_⟩
      · rw [locate_eq, place, hnamed]
        rfl
      · rw [place, hnamed, collapse, hstart]
    exact Or.inr (Or.inr ⟨makeDir_of_isDir hdir, hdir⟩)
  · by_cases hparent : t.isDir here p.parent = true
    · refine (makeDir_of_parent ht hparent (hclear _ (onWay_place here p)) hnamed).imp_right Or.inr
    · have hlook : t.look here p.parent = .error .noEntry := by
        cases hlocate : t.locate here p.parent with
        | error errno =>
            rw [look, hlocate]
            rw [locate_eq] at hlocate
            rcases follow_error_cases hlocate with rfl | ⟨q, hq, hfile⟩
            · rfl
            · exact absurd (hclear.of_parent _ ⟨q, hq, rfl⟩) hfile
        | ok loc =>
            obtain rfl := place_of_locate hlocate
            have hnone : t.node? (place here p.parent) = none :=
              node?_eq_none_of (fun hdir => hparent (isDir_iff.mpr ⟨hlocate, hdir⟩))
                (hclear.of_parent _ (onWay_place here p.parent))
            simp only [look, hlocate, bind, Except.bind, hnone]
      obtain ⟨name, hname⟩ := Option.ne_none_iff_exists'.mp fun hnone =>
        hnamed (List.getLast?_eq_none_iff.mp hnone)
      rw [makeDir, hname]
      dsimp only
      rw [hlook]
      exact Or.inr (Or.inl rfl)

/-- Where no file is in the way a directory is made. -/
theorem makeDirs_of_clear (ht : t.WellFormed) (p : Path) (hstart : t.node? (start here p) = some .dir)
    (hclear : IsClear t here p) : (t.makeDirs here p).2 = .ok () := by
  rw [makeDirs]
  rcases makeDir_of_clear ht hstart hclear with ⟨made, hmake⟩ | hmake | ⟨hmake, hdir⟩
  · rw [hmake]
  · rw [hmake]
    dsimp only
    by_cases hnamed : p.parts = []
    · rw [makeDir, hnamed] at hmake
      cases hmake
    · rw [dif_neg hnamed]
      have habove := makeDirs_of_clear ht p.parent hstart hclear.of_parent
      obtain ⟨hgrows, hwell, hmade⟩ := makeDirs_spec ht here p.parent
      have hfree : (t.makeDirs here p.parent).1.bytes? (place here p) = none := by
        rw [hgrows.bytes?]
        exact hclear _ (onWay_place here p)
      cases hdirs : t.makeDirs here p.parent with
      | mk above result =>
          rw [hdirs] at habove hwell hmade hfree
          obtain rfl : result = .ok () := habove
          dsimp only
          rcases makeDir_of_parent hwell (hmade rfl) hfree hnamed with
            ⟨made, hmake'⟩ | ⟨hmake', hdir⟩
          · rw [hmake']
          · rw [hmake']
            dsimp only
            rw [orThere, if_pos hdir]
  · rw [hmake]
    dsimp only
    rw [orThere, if_pos hdir]
termination_by p.parts.length
decreasing_by
  have := List.length_pos_iff.mpr hnamed
  simp only [Path.parent, List.length_dropLast]
  omega

/-! ## Copying -/

/-- Where a copy goes: over the file or, where there is a directory, into it. -/
def landing (t : Tree) (here : Loc) (source target : Path) : Loc :=
  place here (t.goal here source target)

theorem copy_of_bars (hread : t.read here source = .ok bytes) (h : Bars t here target.parent errno) :
    t.copy here source target = (t, .error (failure target.parent errno)) := by
  rw [copy, look_eq_ok.mpr ⟨rfl, read_eq_ok.mp hread⟩]
  dsimp only
  rw [makeDirs_of_bars h]

/-- Once the directory above is there the way of a copy can be followed. -/
theorem locate_goal (ht : t.WellFormed) (hsource : source.IsProper)
    (hread : t.read here source = .ok bytes) (target : Path)
    (hparent : u.isDir here target.parent = true) :
    u.locate here (u.goal here source target) = .ok (u.landing here source target) := by
  rw [landing, goal]
  split
  · next hdir =>
    rcases child_name ht hsource hread target with hchild | ⟨name, -, hchild⟩
    · rw [hchild]
      exact (isDir_iff.mp hdir).1
    · rw [hchild]
      refine (locate_iff List.getLast?_concat).mpr ?_
      rwa [Path.parent, List.dropLast_concat]
  · next hnot =>
    cases hname : target.parts.getLast? with
    | none =>
        refine absurd ?_ hnot
        rwa [Path.parent, List.getLast?_eq_none_iff.mp hname, List.dropLast_nil,
          ← List.getLast?_eq_none_iff.mp hname] at hparent
    | some name => exact (locate_iff hname).mpr hparent

/-- Once the directory above is there a copy is made unless it goes onto the file itself or onto a
directory. -/
theorem copy_of_makeDirs (ht : t.WellFormed) (hsource : source.IsProper)
    (hread : t.read here source = .ok bytes) (hmade : t.makeDirs here target.parent = (u, .ok ())) :
    t.copy here source target =
      if u.landing here source target = place here source then
        (u, .error (.sameFile source (u.goal here source target) (u.isDir here target)))
      else if u.node? (u.landing here source target) = some .dir then
        (u, .error (failure (u.goal here source target) .isDirectory))
      else (u.put (u.landing here source target) (.file bytes), .ok ()) := by
  have hparent : u.isDir here target.parent = true := by
    have hdirs := (makeDirs_spec ht here target.parent).2.2
    rw [hmade] at hdirs
    exact hdirs rfl
  have hlocate := locate_goal ht hsource hread target hparent
  rw [copy, look_eq_ok.mpr ⟨rfl, read_eq_ok.mp hread⟩]
  dsimp only
  rw [hmade]
  dsimp only
  rw [← goal, hlocate]
  dsimp only
  congr 1
  split
  · next hdir => rw [if_pos hdir]
  · next hnot => rw [if_neg hnot]

theorem putNode_of_lookup {nodes : List (Loc × Node)} {node : Node}
    (h : nodes.lookup loc = some node) : putNode loc node nodes = nodes := by
  induction nodes with
  | nil => cases h
  | cons entry nodes ih =>
      obtain ⟨key, value⟩ := entry
      rw [putNode]
      by_cases hkey : key = loc
      · rw [List.lookup_cons, hkey, beq_self_eq_true] at h
        rw [if_pos hkey, hkey, Option.some.inj h]
      · rw [List.lookup_cons, beq_eq_false_iff_ne.mpr (Ne.symm hkey)] at h
        rw [if_neg hkey, ih h]

/-- To put what is there changes nothing. -/
theorem put_of_node? (h : t.node? loc = some (.file bytes)) : t.put loc (.file bytes) = t := by
  have hloc : loc ≠ [] := by
    rintro rfl
    cases h
  rw [Tree.node?, if_neg hloc] at h
  rw [put, putNode_of_lookup h]

/-- The ways to a file and to where it is to be copied make no detours, and the file is not where the
copy goes. -/
structure Direct (t : Tree) (here : Loc) (source target : Path) : Prop where
  proper : source.IsProper
  start : t.node? (start here target) = some .dir
  source_straight : ¬ IsDetour t here source
  target_straight : ¬ IsDetour t here target
  apart : ¬ place here target <+: place here source

theorem prefix_landing (ht : t.WellFormed) (hsource : source.IsProper)
    (hread : t.read here source = .ok bytes) (target : Path) (u : Tree) :
    place here target <+: u.landing here source target := by
  rw [landing]
  rcases place_goal ht hsource hread u with hgoal | ⟨name, hgoal⟩
  · rw [hgoal]
  · rw [hgoal]
    exact List.prefix_append _ _

theorem not_isBelow_of_within {above : Loc} (h : above <+: loc) : ¬ isBelow loc above = true := by
  intro hbelow
  obtain ⟨rest, hrest, rfl⟩ := isBelow_iff.mp hbelow
  have hlength := h.length_le
  have hpos := List.length_pos_iff.mpr hrest
  rw [List.length_append] at hlength
  omega

theorem WellFormed.there_above (ht : t.WellFormed) {above : Loc} (h : above <+: loc)
    (hnode : t.node? loc ≠ none) : t.node? above ≠ none := by
  obtain ⟨rest, rfl⟩ := h
  by_cases hrest : rest = []
  · rwa [hrest, List.append_nil] at hnode
  · rw [ht.dir_above hrest hnode]
    exact Option.some_ne_none _

/-- Directories that come above where a copy goes do not turn it elsewhere. -/
theorem Changes.goal_eq (h : Changes P T t t') (ht : t.WellFormed)
    (hstraight : ¬ IsDetour t here target) (hP : ¬ P (place here target)) (source : Path) :
    t'.goal here source target = t.goal here source target := by
  rw [goal, goal, h.isDir_eq ht hstraight hP]

theorem Changes.landing_eq (h : Changes P T t t') (ht : t.WellFormed)
    (hstraight : ¬ IsDetour t here target) (hP : ¬ P (place here target)) (source : Path) :
    t'.landing here source target = t.landing here source target := by
  rw [landing, landing, h.goal_eq ht hstraight hP]

/-- Where a file has come, another copy of the same file goes again. -/
theorem goal_of_read (hdirs : ∀ loc, t.node? loc = some .dir → t'.node? loc = some .dir)
    (hread : t'.read here (t.goal here source target) = .ok bytes) :
    t'.goal here source target = t.goal here source target := by
  by_cases hdir : t.isDir here target = true
  · rw [goal, goal, if_pos hdir, if_pos (isDir_of_dirs hdirs hdir)]
  · rw [goal, if_neg hdir] at hread
    have hnot : ¬ t'.isDir here target = true := fun hdir' => by
      cases (isDir_iff.mp hdir').2.symm.trans (read_eq_ok.mp hread).2
    rw [goal, goal, if_neg hdir, if_neg hnot]

/-- A copy that is made lies where one of the same file would go now. -/
theorem copy_made (ht : t.WellFormed) (hok : (t.copy here source target).2 = .ok ()) :
    ∃ bytes t', t.copy here source target = (t', .ok ()) ∧ t.read here source = .ok bytes ∧
      Changes (fun _ => True) (· = t'.landing here source target) t t' ∧
      t'.read here (t'.goal here source target) = .ok bytes := by
  obtain ⟨u, hgrows, hwell, ⟨e, hfails⟩ | ⟨bytes, t', hcopy, hread, hputs, -⟩⟩ :=
    copy_cases ht here source target
  · rw [hfails] at hok
    cases hok
  · have hput : Changes (fun _ => True) (· = u.landing here source target) u t' :=
      .of_puts hwell hputs rfl
    have hgoal : t'.goal here source target = u.goal here source target :=
      goal_of_read hput.dirs (hputs.read hwell)
    refine ⟨bytes, t', hcopy, hread, ?_, hgoal ▸ hputs.read hwell⟩
    rw [landing, hgoal]
    exact (Changes.of_grows hwell (hgrows.mono fun _ _ => trivial)).trans hput

namespace Direct

/-- The directories that are made for a copy lie above where it goes, and none are made if something
is there. -/
theorem makeDirs (h : Direct t here source target) (ht : t.WellFormed)
    (hclear : IsClear t here target.parent) : ∃ u, t.makeDirs here target.parent = (u, .ok ()) ∧
      Changes (fun loc => isBelow loc (place here target) = true) (fun _ => False) t u ∧
      u.isDir here target.parent = true ∧ (t.node? (place here target) ≠ none → u = t) := by
  obtain ⟨hgrows, hwell, hdir⟩ := makeDirs_spec ht here target.parent
  have hok : (t.makeDirs here target.parent).2 = .ok () := makeDirs_of_clear ht _ h.start hclear
  have hmade : t.makeDirs here target.parent = ((t.makeDirs here target.parent).1, .ok ()) :=
    Prod.ext rfl hok
  cases hname : target.parts.getLast? with
  | none =>
      -- a path without components leads to a directory already
      have hparts : target.parent.parts = [] := by
        rw [Path.parent, List.getLast?_eq_none_iff.mp hname, List.dropLast_nil]
      have hthere : t.isDir here target.parent = true := by
        refine isDir_iff.mpr ⟨?_, ?_⟩
        · rw [locate_eq, place, hparts]
          rfl
        · rw [place, hparts]
          exact h.start
      exact ⟨t, makeDirs_of_isDir hthere, .refl ht, hthere, fun _ => rfl⟩
  | some name =>
      have hchanges : Changes (fun loc => isBelow loc (place here target) = true)
          (fun _ => False) t (t.makeDirs here target.parent).1 := by
        refine .of_grows hwell fun loc => (hgrows loc).imp_right ?_
        rintro ⟨hnone, hmade, hway⟩
        exact ⟨hnone, hmade, isBelow_of_onWay ht h.start h.target_straight hway hnone⟩
      refine ⟨_, hmade, hchanges, hdir hok, fun hnode => ?_⟩
      have hlocate := hchanges.locate_back ht h.target_straight hnode
        ((locate_iff hname).mpr (hdir hok))
      rw [makeDirs_of_isDir ((locate_iff hname).mp hlocate)]

/-- With no file in the way a copy is made, unless a directory is where it goes. -/
theorem copy_of_clear (h : Direct t here source target) (ht : t.WellFormed)
    (hread : t.read here source = .ok bytes) (hclear : IsClear t here target.parent) :
    (t.node? (t.landing here source target) = some .dir ∧ t.copy here source target =
        (t, .error (failure (t.goal here source target) .isDirectory))) ∨
      t.node? (t.landing here source target) ≠ some .dir ∧ ∃ u,
        Changes (fun loc => isBelow loc (place here target) = true) (fun _ => False) t u ∧
        (t.node? (place here target) ≠ none → u = t) ∧
        Puts here (t.goal here source target) bytes u (t.copy here source target).1 ∧
        (t.copy here source target).2 = .ok () := by
  obtain ⟨u, hmade, hchanges, hparent, hsame⟩ := h.makeDirs ht hclear
  have hself := not_isBelow_self (place here target)
  have hgoal : u.goal here source target = t.goal here source target :=
    hchanges.goal_eq ht h.target_straight hself source
  have hlanding : u.landing here source target = t.landing here source target :=
    hchanges.landing_eq ht h.target_straight hself source
  have hlocate := locate_goal ht h.proper hread target hparent
  have hprefix := prefix_landing ht h.proper hread target t
  have hcopy := copy_of_makeDirs ht h.proper hread hmade
  have hdir : u.node? (t.landing here source target) = some .dir ↔
      t.node? (t.landing here source target) = some .dir :=
    hchanges.dir_iff (not_isBelow_of_within hprefix)
  have hother : t.landing here source target ≠ place here source := fun heq =>
    h.apart (heq ▸ hprefix)
  rw [hlanding, if_neg hother, hgoal] at hcopy
  rw [hlanding, hgoal] at hlocate
  by_cases hnode : t.node? (t.landing here source target) = some .dir
  · rw [if_pos (hdir.mpr hnode)] at hcopy
    refine Or.inl ⟨hnode, ?_⟩
    rw [hcopy, hsame ?_]
    refine ht.there_above hprefix ?_
    rw [hnode]
    exact Option.some_ne_none _
  · rw [if_neg (mt hdir.mp hnode)] at hcopy
    refine Or.inr ⟨hnode, u, hchanges, hsame, ?_, by rw [hcopy]⟩
    rw [hcopy]
    refine ⟨hlocate, mt hdir.mp hnode, fun hnil => ?_, rfl⟩
    refine mt hdir.mp hnode ?_
    rw [← hgoal] at hnil
    have := goal_named hparent hnil
    rwa [hgoal] at this

/-- A copy that is refused changes nothing, and neither does one of what is there already. One that is
made changes the file where it goes, and makes directories above it. -/
theorem copy_straight (h : Direct t here source target) (ht : t.WellFormed) :
    (∃ e, t.copy here source target = (t, .error e)) ∨
    ∃ bytes, t.read here source = .ok bytes ∧ (t.copy here source target).2 = .ok () ∧
      Changes (fun loc => isBelow loc (place here target) = true)
        (· = t.landing here source target) t (t.copy here source target).1 ∧
      (t.copy here source target).1.bytes? (t.landing here source target) = some bytes ∧
      (t.bytes? (t.landing here source target) = some bytes →
        (t.copy here source target).1 = t) := by
  by_cases hfile : ∃ bytes, t.read here source = .ok bytes
  · obtain ⟨bytes, hread⟩ := hfile
    rcases isClear_or_bars ht (mt IsDetour.of_parent h.target_straight) with hclear | ⟨errno, hbars⟩
    · rcases h.copy_of_clear ht hread hclear with ⟨-, hcopy⟩ | ⟨-, u, hgrown, hsame, hputs, hok⟩
      · exact Or.inl ⟨_, hcopy⟩
      · refine Or.inr ⟨bytes, hread, hok, ?_, ?_, fun hbytes => ?_⟩
        · exact (hgrown.mono (fun _ => id) fun _ => False.elim).trans
            (.of_puts hgrown.wellFormed hputs rfl)
        · rw [hputs.bytes? hgrown.wellFormed]
          exact if_pos rfl
        · have hnode := bytes?_eq_some.mp hbytes
          obtain rfl : u = t := hsame (ht.there_above (prefix_landing ht h.proper hread target t) (by
            rw [hnode]
            exact Option.some_ne_none _))
          rw [hputs.eq]
          exact put_of_node? hnode
    · exact Or.inl ⟨_, copy_of_bars hread hbars⟩
  · exact Or.inl ⟨_, copy_of_unread (fun bytes hread => hfile ⟨bytes, hread⟩) target⟩

/-- The way of a copy stays clear if files come nowhere above where it goes. -/
theorem clear (h : Direct t here source target) (ht : t.WellFormed) (hchanges : Changes P T t t')
    (hT : ∀ loc, T loc → t.node? loc = none → ¬ isBelow loc (place here target) = true)
    (hclear : IsClear t here target.parent) : IsClear t' here target.parent := by
  intro loc hway
  by_cases hloc : T loc
  · have hdir : t.node? loc = some .dir := by
      by_contra hnot
      have hnone := node?_eq_none_of hnot (hclear loc hway)
      exact hT loc hloc hnone (isBelow_of_onWay ht h.start h.target_straight hway hnone)
    rw [Tree.bytes?, hchanges.dirs loc hdir]
  · rw [hchanges.bytes? hloc]
    exact hclear loc hway

theorem of_changes (h : Direct t here source target) (hchanges : Changes P T t t') :
    Direct t' here source target where
  proper := h.proper
  start := hchanges.dirs _ h.start
  source_straight := hchanges.straight h.source_straight
  target_straight := hchanges.straight h.target_straight
  apart := h.apart

/-- What is copied elsewhere makes no difference to what comes of a copy. -/
theorem copy_stable (h : Direct t here source target) (ht : t.WellFormed)
    (hchanges : Changes P T t t') (hsource : ¬ T (place here source))
    (hT : ∀ loc, T loc → t.node? loc = none → ¬ isBelow loc (place here target) = true)
    (hP : ∀ loc, P loc → ¬ place here target <+: loc) :
    (t'.copy here source target).2 = (t.copy here source target).2 := by
  by_cases hfile : ∃ bytes, t.read here source = .ok bytes
  · obtain ⟨bytes, hread⟩ := hfile
    have hread' := hchanges.read hsource hread
    rcases isClear_or_bars ht (mt IsDetour.of_parent h.target_straight) with hclear | ⟨errno, hbars⟩
    · have hplace : ¬ P (place here target) := fun hP' => hP _ hP' List.prefix_rfl
      have hlanding : ¬ P (t.landing here source target) := fun hP' =>
        hP _ hP' (prefix_landing ht h.proper hread target t)
      have hdir := hchanges.dir_iff hlanding
      have hcopy' := (h.of_changes hchanges).copy_of_clear hchanges.wellFormed hread'
        (h.clear ht hchanges hT hclear)
      rw [hchanges.landing_eq ht h.target_straight hplace,
        hchanges.goal_eq ht h.target_straight hplace] at hcopy'
      rcases h.copy_of_clear ht hread hclear with ⟨hnode, hcopy⟩ | ⟨hnode, -, -, -, -, hok⟩
      · rcases hcopy' with ⟨-, hcopy'⟩ | ⟨hnode', -⟩
        · rw [hcopy, hcopy']
        · exact absurd (hdir.mpr hnode) hnode'
      · rcases hcopy' with ⟨hnode', -⟩ | ⟨-, -, -, -, -, hok'⟩
        · exact absurd (hdir.mp hnode') hnode
        · rw [hok, hok']
    · rw [copy_of_bars hread hbars, copy_of_bars hread' (hchanges.bars hbars)]
  · have hunread : ∀ bytes, t.read here source ≠ .ok bytes := fun bytes hread => hfile ⟨bytes, hread⟩
    rw [copy_of_unread hunread,
      copy_of_unread (hchanges.unread ht h.source_straight hsource hunread)]

end Direct

end Tree

end Stencil

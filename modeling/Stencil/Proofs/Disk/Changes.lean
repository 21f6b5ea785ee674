import Stencil.Proofs.Disk.Spares

/-!
# Disks on which nothing is lost

Writing and copying leave every directory a directory and every file a file (`Changes`), make
directories only on the way to where they go, and change one file, which then holds what it was
given (`replace_changes`, `copy_changes`). Only removing a directory takes anything away: all
files below it, if the directory is there (`removeTree_bytes?`), and the directory itself, unless
the way to it leads through what has gone (`removeTree_gone`). So what events that go to locations of
one kind leave elsewhere, directories included, is still there after them (`dirs_replay`).
-/

namespace Stencil

open Stencil.Path (parentName)

namespace Tree

variable {t t' t'' u : Tree} {here loc : Loc} {p source target : Path} {bytes : Bytes}
  {P P' T T' : Loc → Prop}

/-- Directories have come at locations of one kind, files have come or changed at locations of
another, and nothing has gone. -/
structure Changes (P T : Loc → Prop) (t t' : Tree) : Prop where
  wellFormed : t'.WellFormed
  dirs : ∀ loc, t.node? loc = some .dir → t'.node? loc = some .dir
  files : ∀ loc, t.bytes? loc ≠ none → t'.bytes? loc ≠ none
  grown : ∀ loc, t'.node? loc = some .dir → t.node? loc = some .dir ∨ P loc
  spares : Spares T t t'

theorem node?_eq_none_of (hdir : t.node? loc ≠ some .dir) (hbytes : t.bytes? loc = none) :
    t.node? loc = none := by
  rw [Tree.bytes?] at hbytes
  split at hbytes
  · cases hbytes
  · next hnot =>
    cases hnode : t.node? loc with
    | none => rfl
    | some node =>
        cases node with
        | dir => exact absurd hnode hdir
        | file bytes => exact absurd hnode (hnot bytes)

/-- What can be followed on one disk can be followed on another that has all its directories. -/
theorem locate_of_dirs (hdirs : ∀ loc, t.node? loc = some .dir → t'.node? loc = some .dir)
    (hlocate : t.locate here p = .ok loc) : t'.locate here p = .ok loc := by
  rw [place_of_locate hlocate]
  rw [locate_eq] at hlocate ⊢
  exact follow_of_dirs fun q hq hne => hdirs _ (dirs_of_follow hlocate hq hne)

theorem isDir_of_dirs (hdirs : ∀ loc, t.node? loc = some .dir → t'.node? loc = some .dir)
    (hdir : t.isDir here p = true) : t'.isDir here p = true := by
  obtain ⟨hlocate, hnode⟩ := isDir_iff.mp hdir
  exact isDir_iff.mpr ⟨locate_of_dirs hdirs hlocate, hdirs _ hnode⟩

namespace Changes

theorem refl (ht : t.WellFormed) : Changes P T t t :=
  ⟨ht, fun _ h => h, fun _ h => h, fun _ h => Or.inl h, Spares.refl t⟩

theorem trans (h : Changes P T t t') (h' : Changes P T t' t'') : Changes P T t t'' where
  wellFormed := h'.wellFormed
  dirs loc hdir := h'.dirs loc (h.dirs loc hdir)
  files loc hfile := h'.files loc (h.files loc hfile)
  grown loc hdir := (h'.grown loc hdir).elim (h.grown loc) Or.inr
  spares := h.spares.trans h'.spares

theorem mono (h : Changes P T t t') (hP : ∀ loc, P loc → P' loc) (hT : ∀ loc, T loc → T' loc) :
    Changes P' T' t t' :=
  ⟨h.wellFormed, h.dirs, h.files, fun loc hdir => (h.grown loc hdir).imp_right (hP loc),
    h.spares.mono hT⟩

theorem of_grows (ht : t'.WellFormed) (h : Grows P t t') : Changes P T t t' where
  wellFormed := ht
  dirs loc := h.dir
  files loc hfile := by rwa [h.bytes?]
  grown loc hdir := (h loc).imp (fun heq => heq.symm.trans hdir) fun hmade => hmade.2.2
  spares loc _ := h.bytes? loc

theorem of_puts (ht : t.WellFormed) (h : Puts here p bytes t t') (hT : T (place here p)) :
    Changes P T t t' where
  wellFormed := h.wellFormed ht
  dirs loc hdir := by
    rw [h.node? ht, if_neg, hdir]
    rintro rfl
    exact h.free hdir
  files loc hfile := by
    rw [h.bytes? ht]
    split
    · exact Option.some_ne_none _
    · exact hfile
  grown loc hdir := by
    rw [h.node? ht] at hdir
    split at hdir
    · cases hdir
    · exact Or.inl hdir
  spares loc hloc := by
    rw [h.bytes? ht, if_neg]
    rintro rfl
    exact hloc hT

theorem bytes? (h : Changes P T t t') (hloc : ¬ T loc) : t'.bytes? loc = t.bytes? loc :=
  h.spares loc hloc

theorem dir_iff (h : Changes P T t t') (hloc : ¬ P loc) :
    t'.node? loc = some .dir ↔ t.node? loc = some .dir :=
  ⟨fun hdir => (h.grown loc hdir).resolve_right hloc, h.dirs loc⟩

/-- Where nothing is to be made there is nothing. -/
theorem vacant (h : Changes P T t t') (hP : ¬ P loc) (hT : ¬ T loc) (hnone : t.node? loc = none) :
    t'.node? loc = none := by
  refine node?_eq_none_of (fun hdir => ?_) ?_
  · rw [(h.dir_iff hP).mp hdir] at hnone
    cases hnone
  · rw [h.bytes? hT, Tree.bytes?, hnone]

theorem read (h : Changes P T t t') (hp : ¬ T (place here p)) (hread : t.read here p = .ok bytes) :
    t'.read here p = .ok bytes := by
  obtain ⟨hlocate, hnode⟩ := read_eq_ok.mp hread
  refine read_eq_ok.mpr ⟨locate_of_dirs h.dirs hlocate, bytes?_eq_some.mp ?_⟩
  rw [h.bytes? hp, bytes?_eq_some.mpr hnode]

end Changes

/-! ## Writing and copying -/

theorem Puts.read (h : Puts here p bytes t t') (ht : t.WellFormed) : t'.read here p = .ok bytes := by
  have hchanges : Changes (fun _ => False) (fun _ => True) t t' := .of_puts ht h trivial
  refine read_eq_ok.mpr ⟨locate_of_dirs hchanges.dirs h.locate, ?_⟩
  rw [h.node? ht, if_pos rfl]

/-- A file that is replaced holds what it was given; if it cannot be replaced no file changes. -/
theorem replace_changes (ht : t.WellFormed) (here : Loc) (tag : Text) (p : Path) (bytes : Bytes) :
    Changes (OnWay here p.parent)
        (fun loc => (t.replace here tag p bytes).2 = .ok () ∧ loc = place here p) t
        (t.replace here tag p bytes).1 ∧
      ((t.replace here tag p bytes).2 = .ok () →
        (t.replace here tag p bytes).1.read here p = .ok bytes) := by
  obtain ⟨u, hgrows, hwell, ⟨e, hfails⟩ | ⟨t', hdone, hputs, -⟩⟩ :=
    replace_cases ht here tag p bytes
  · rw [hfails]
    exact ⟨.of_grows hwell hgrows, fun heq => by cases heq⟩
  · rw [hdone]
    exact ⟨(Changes.of_grows hwell hgrows).trans (.of_puts hwell hputs ⟨rfl, rfl⟩),
      fun _ => hputs.read hwell⟩

theorem copy_of_unread (h : ∀ bytes, t.read here source ≠ .ok bytes) (target : Path) :
    t.copy here source target = (t, .error (.noSource source)) := by
  rw [copy]
  split
  · next loc bytes hlook =>
    obtain ⟨rfl, hread⟩ := look_eq_ok.mp hlook
    exact absurd (read_eq_ok.mpr hread) (h bytes)
  · rfl

/-- A copy that is refused changes no file, and nothing at all without a file to copy. One that is
made lies where it was to go, unless there has been a directory, and holds what the file holds
that it is of. -/
theorem copy_changes (ht : t.WellFormed) (here : Loc) (hsource : source.IsProper) (target : Path) :
    (∃ e, (t.copy here source target).2 = .error e ∧
      Changes (fun loc => OnWay here target.parent loc ∧ ∃ bytes, t.read here source = .ok bytes)
        (fun _ => False) t (t.copy here source target).1) ∨
    ∃ bytes goal, (t.copy here source target).2 = .ok () ∧ t.read here source = .ok bytes ∧
      (goal = place here target ∨ (OnWay here target.parent (place here target) ∨
          t.node? (place here target) = some .dir) ∧ ∃ name, goal = place here target ++ [name]) ∧
      goal ≠ place here source ∧
      Changes (OnWay here target.parent) (· = goal) t (t.copy here source target).1 ∧
      (t.copy here source target).1.bytes? goal = some bytes := by
  obtain ⟨u, hgrows, hwell, ⟨e, hfails⟩ | ⟨bytes, t', hdone, hread, hputs, hother, -⟩⟩ :=
    copy_cases ht here source target
  · refine Or.inl ⟨e, congrArg Prod.snd hfails, ?_⟩
    by_cases hfile : ∃ bytes, t.read here source = .ok bytes
    · rw [hfails]
      exact (Changes.of_grows hwell hgrows).mono (fun _ hway => ⟨hway, hfile⟩) fun _ => id
    · rw [copy_of_unread fun bytes hread => hfile ⟨bytes, hread⟩]
      exact .refl ht
  · rw [hdone]
    refine Or.inr ⟨bytes, _, rfl, hread, ?_, hother,
      (Changes.of_grows hwell hgrows).trans (.of_puts hwell hputs rfl), ?_⟩
    · by_cases hinside : u.isDir here target = true
      · refine (place_goal ht hsource hread u).imp_right fun hname => ⟨?_, hname⟩
        rcases hgrows (place here target) with heq | ⟨-, -, hway⟩
        · exact Or.inr (heq ▸ (isDir_iff.mp hinside).2)
        · exact Or.inl hway
      · rw [goal, if_neg hinside]
        exact Or.inl rfl
    · rw [hputs.bytes? hwell, if_pos rfl]

/-! ## Removing -/

theorem not_isBelow_self (loc : Loc) : ¬ isBelow loc loc = true := fun h => by
  obtain ⟨rest, hrest, heq⟩ := isBelow_iff.mp h
  exact hrest (List.append_cancel_left ((List.append_nil loc).trans heq)).symm

theorem removeTree_of_not_isDir (h : t.isDir here p = false) : (t.removeTree here p).1 = t := by
  rw [removeTree]
  split
  · rfl
  · rfl
  · next loc hlook =>
    rw [isDir, hlook] at h
    cases h

/-- Every file below a directory goes with it, and no other. -/
theorem removeTree_bytes? (t : Tree) (here : Loc) (p : Path) (loc : Loc) :
    (t.removeTree here p).1.bytes? loc =
      if t.isDir here p = true ∧ place here p <+: loc then none else t.bytes? loc := by
  cases hdir : t.isDir here p with
  | false => rw [removeTree_of_not_isDir hdir, if_neg fun h => Bool.false_ne_true h.1]
  | true =>
      obtain ⟨hlocate, hnode⟩ := isDir_iff.mp hdir
      have hbelow : ((t.eraseBelow (place here p)).bytes? loc) =
          if place here p <+: loc then none else t.bytes? loc := by
        rw [Tree.bytes?, node?_eraseBelow]
        by_cases hwithin : place here p <+: loc
        · rw [if_pos hwithin]
          obtain ⟨rest, rfl⟩ := hwithin
          by_cases hrest : rest = []
          · rw [hrest, List.append_nil, if_neg (not_isBelow_self _), hnode]
          · rw [if_pos (isBelow_iff.mpr ⟨rest, hrest, rfl⟩)]
        · rw [if_neg hwithin, if_neg fun hbelow => ?_]
          · rfl
          · obtain ⟨rest, -, rfl⟩ := isBelow_iff.mp hbelow
            exact hwithin (List.prefix_append _ _)
      rw [removeTree, look_eq_ok.mpr ⟨rfl, hlocate, hnode⟩]
      dsimp only
      simp only [true_and]
      split
      · exact hbelow
      · next loc' node hlook =>
        obtain ⟨rfl, -⟩ := look_eq_ok.mp hlook
        split
        · exact hbelow
        · split
          · exact hbelow
          · next hne =>
            rw [← hbelow, Tree.bytes?, Tree.bytes?, node?_erase _ hne]
            by_cases hloc : loc = place here p
            · rw [if_pos hloc, hloc, node?_eraseBelow, if_neg (not_isBelow_self _), hnode]
            · rw [if_neg hloc]

/-- A directory goes altogether if the way to it does not lead through what has gone already. -/
theorem removeTree_gone {name : Text} (hdir : t.isDir here p = true)
    (hname : p.parts.getLast? = some name) (hdots : name ≠ parentName)
    (hway : ∀ loc, OnWay here p.parent loc → ¬ isBelow (place here p) loc = true)
    (hloc : place here p <+: loc) : (t.removeTree here p).1.node? loc = none := by
  obtain ⟨hlocate, hnode⟩ := isDir_iff.mp hdir
  have hagain : (t.eraseBelow (place here p)).look here p = .ok (place here p, .dir) := by
    refine look_eq_ok.mpr ⟨rfl, (locate_iff hname).mpr ?_, ?_⟩
    · obtain ⟨hlocate', hnode'⟩ := isDir_iff.mp ((locate_iff hname).mp hlocate)
      refine isDir_iff.mpr ⟨?_, ?_⟩
      · rw [locate_eq] at hlocate' ⊢
        refine follow_of_dirs fun q hq hne => ?_
        rw [node?_eraseBelow, if_neg (hway _ ⟨q, hq, rfl⟩)]
        exact dirs_of_follow hlocate' hq hne
      · rw [node?_eraseBelow, if_neg (hway _ (onWay_place here p.parent)), hnode']
    · rw [node?_eraseBelow, if_neg (not_isBelow_self _), hnode]
  have hne : place here p ≠ [] := by
    rw [place_eq_append hname hdots]
    exact List.append_ne_nil_of_right_ne_nil _ (List.cons_ne_nil _ _)
  have hlast : p.name ≠ parentName := by
    rw [Path.name, hname, Option.getD_some]
    exact hdots
  rw [removeTree, look_eq_ok.mpr ⟨rfl, hlocate, hnode⟩]
  dsimp only
  rw [hagain]
  dsimp only
  rw [if_neg hlast, if_neg hne, node?_erase _ hne]
  obtain ⟨rest, rfl⟩ := hloc
  by_cases hrest : rest = []
  · rw [hrest, List.append_nil, if_pos rfl]
  · rw [node?_eraseBelow, if_pos (isBelow_iff.mpr ⟨rest, hrest, rfl⟩), ite_self]

/-! ## What stays -/

/-- Files have changed at locations of two kinds only, and directories have gone at those of the first
kind only. -/
structure Retains (P T : Loc → Prop) (t t' : Tree) : Prop where
  spares : Spares (fun loc => P loc ∨ T loc) t t'
  dirs : ∀ loc, ¬ P loc → t.node? loc = some .dir → t'.node? loc = some .dir

namespace Retains

theorem refl (t : Tree) : Retains P T t t := ⟨Spares.refl t, fun _ _ h => h⟩

theorem trans (h : Retains P T t t') (h' : Retains P T t' t'') : Retains P T t t'' :=
  ⟨h.spares.trans h'.spares, fun loc hloc hdir => h'.dirs loc hloc (h.dirs loc hloc hdir)⟩

theorem mono (h : Retains P T t t') (hP : ∀ loc, P loc → P' loc) (hT : ∀ loc, T loc → T' loc) :
    Retains P' T' t t' :=
  ⟨h.spares.mono fun loc => Or.imp (hP loc) (hT loc), fun loc hloc => h.dirs loc (hloc ∘ hP loc)⟩

/-- What can be followed stays so while nothing on its way may go. -/
theorem locate (h : Retains P T t t') (hway : ∀ loc, OnWay here p loc → ¬ P loc)
    (hlocate : t.locate here p = .ok loc) : t'.locate here p = .ok loc := by
  rw [place_of_locate hlocate]
  rw [locate_eq] at hlocate ⊢
  exact follow_of_dirs fun q hq hne =>
    h.dirs _ (hway _ ⟨q, hq, rfl⟩) (dirs_of_follow hlocate hq hne)

end Retains

end Tree

open Stencil.Tree (place)

variable {here : Loc} {P : Loc → Prop} {t : Tree} {event : Event} {events : List Event}

theorem Event.dirs_replay (tag : Text) (ht : t.WellFormed) (h : event.Within here P) {loc : Loc}
    (hloc : ¬ P loc) (hdir : t.node? loc = some .dir) :
    (event.replay here tag t).node? loc = some .dir := by
  cases event with
  | replace path bytes => exact (Tree.replace_changes ht here tag path bytes).1.dirs loc hdir
  | copy source target =>
      rcases Tree.copy_changes ht here h.1 target with
        ⟨e, -, hchanges⟩ | ⟨bytes, goal, -, -, -, -, hchanges, -⟩
      · exact hchanges.dirs loc hdir
      · exact hchanges.dirs loc hdir
  | removeTree path =>
      exact ((Tree.Loses.removeTree ht here path).node? fun hbelow => hloc (h loc hbelow)).trans hdir
  | _ => exact hdir

theorem World.dirs_replay (tag : Text) (ht : t.WellFormed)
    (h : ∀ event ∈ events, event.Within here P) {loc : Loc} (hloc : ¬ P loc)
    (hdir : t.node? loc = some .dir) : (World.replay here tag t events).node? loc = some .dir := by
  induction events generalizing t with
  | nil => exact hdir
  | cons event events ih =>
      have hevent := h event List.mem_cons_self
      exact ih (Event.spares_replay tag ht hevent).1
        (fun event he => h event (List.mem_cons_of_mem _ he)) (Event.dirs_replay tag ht hevent hloc hdir)

end Stencil

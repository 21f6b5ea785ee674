import Stencil.Discovery
import Stencil.Proofs.Run.Play
import Stencil.Proofs.Disk.Reach

/-!
# Folders that are never searched

The folders of templates and of backups are named by settings of their own, while the walk over a
site asks other settings which folders to enter. A folder below the site is kept out, on every disk,
just when the walk does not enter one of the folders on the way to it or no pattern accepts a file
in it (`keepsOut_iff`): that it holds templates or backups does not matter. What is offered as a
page of a template is always a candidate (`mem_instances_iff`).
-/

namespace Stencil

open Stencil.Path (IsName parentName)

namespace Tree

variable {t : Tree} {here loc : Loc} {p : Path}

/-- What a walk from a directory lists: the files below it, but for those in folders to skip. -/
theorem mem_walk_iff {skip : Text → Bool} {rest : List Text} :
    rest ∈ t.walk here p skip ↔ t.isDir here p = true ∧
      (∃ bytes, (place here p ++ rest, bytes) ∈ t.files) ∧
        ∀ dir ∈ rest.dropLast, skip dir = false := by
  rw [walk]
  split
  · next loc hlook =>
    obtain ⟨rfl, hdir⟩ := look_eq_ok.mp hlook
    rw [List.mem_filterMap]
    constructor
    · rintro ⟨⟨file, bytes⟩, hfile, hrest⟩
      dsimp only at hrest
      split at hrest
      · next tail hprefix =>
        split at hrest
        · cases hrest
        · next hany =>
          rw [List.isPrefixOf?_eq_some_iff_append_eq] at hprefix
          obtain rfl := Option.some.inj hrest
          refine ⟨isDir_iff.mpr hdir, ⟨bytes, hprefix ▸ hfile⟩, fun dir hmem => ?_⟩
          rw [Bool.not_eq_true, List.any_eq_false] at hany
          exact Bool.eq_false_iff.mpr (hany dir hmem)
      · cases hrest
    · rintro ⟨-, ⟨bytes, hfile⟩, hdirs⟩
      refine ⟨_, hfile, ?_⟩
      have hany : rest.dropLast.any skip = false :=
        List.any_eq_false.mpr fun dir hmem => by rw [hdirs dir hmem]; exact Bool.false_ne_true
      dsimp only
      rw [List.isPrefixOf?_eq_some_iff_append_eq.mpr rfl]
      dsimp only
      rw [hany]
      rfl
  · next hnot =>
    constructor
    · intro hmem
      cases hmem
    · rintro ⟨hdir, -⟩
      exact absurd (look_eq_ok.mpr ⟨rfl, isDir_iff.mp hdir⟩) (hnot _)

/-- In a well-formed disk a path without double dots leads to what is there. -/
theorem WellFormed.locate (h : t.WellFormed) (hdots : parentName ∉ p.parts)
    (hnode : t.node? (place here p) ≠ none) : t.locate here p = .ok (place here p) := by
  have hplace : place here p = start here p ++ p.parts := Path.collapse_of_not_mem hdots _
  rw [hplace] at hnode ⊢
  exact h.follow hdots hnode

/-! ## A disk with one file -/

/-- A file, and the directories it lies in. -/
def lone (loc : Loc) (bytes : Bytes) : Tree :=
  ⟨loc.inits.map fun above => (above, if above = loc then .file bytes else .dir)⟩

theorem node?_lone (bytes : Bytes) {above : Loc} (h : above <+: loc) (hloc : loc ≠ []) :
    (lone loc bytes).node? above = some (if above = loc then .file bytes else .dir) := by
  rw [node?]
  split
  · next hnil => rw [if_neg fun heq => hloc (heq.symm.trans hnil)]
  · exact List.lookup_graph _ ((List.mem_inits _ _).mpr h)

theorem dir_lone (bytes : Bytes) {above : Loc} (h : above <+: loc) (hne : above ≠ loc) :
    (lone loc bytes).node? above = some .dir := by
  have hloc : loc ≠ [] := fun hnil => hne ((List.prefix_nil.mp (hnil ▸ h)).trans hnil.symm)
  rw [node?_lone bytes h hloc, if_neg hne]

theorem file_lone (bytes : Bytes) (hloc : loc ≠ []) :
    (lone loc bytes).node? loc = some (.file bytes) := by
  rw [node?_lone bytes List.prefix_rfl hloc, if_pos rfl]

theorem wellFormed_lone (bytes : Bytes) (hloc : loc ≠ []) : (lone loc bytes).WellFormed := by
  refine wellFormed_of_nodes fun entry hentry => ?_
  obtain ⟨above, habove, rfl⟩ := List.mem_map.mp hentry
  have hprefix := (List.mem_inits _ _).mp habove
  refine dir_lone bytes ((List.dropLast_prefix above).trans hprefix) fun heq => ?_
  have hlength := congrArg List.length heq
  have hle := hprefix.length_le
  have hpos := List.length_pos_iff.mpr hloc
  dsimp only at hlength
  rw [List.length_dropLast] at hlength
  omega

theorem mem_files_lone {bytes : Bytes} {entry : Loc × Bytes} :
    entry ∈ (lone loc bytes).files ↔ entry = (loc, bytes) := by
  rw [files, lone, List.mem_filterMap]
  constructor
  · rintro ⟨node, hnode, heq⟩
    obtain ⟨above, -, rfl⟩ := List.mem_map.mp hnode
    by_cases habove : above = loc
    · rw [if_pos habove] at heq
      rw [← Option.some.inj heq, habove]
    · rw [if_neg habove] at heq
      cases heq
  · rintro rfl
    refine ⟨_, List.mem_map.mpr ⟨loc, (List.mem_inits _ _).mpr List.prefix_rfl, rfl⟩, ?_⟩
    rw [if_pos rfl]

end Tree

namespace Discovery

open Stencil.Tree (isBelow)

variable {s : Settings} {w : World} {here : Loc} {folder path : Path} {dirs : List Text}

/-! ## What is found -/

theorem mem_candidates_iff : path ∈ ((candidates s : Sim (List Path)).run w).1 ↔
    w.tree.isDir w.here s.siteRoot = true ∧ ∃ file, path = Discovery.place s file ∧
      (∃ bytes, (Tree.place w.here s.siteRoot ++ file, bytes) ∈ w.tree.files) ∧
        (∀ dir ∈ file.dropLast, skipsDir s dir = false) ∧
          accepts s (Text.join "/" file) = true := by
  have hrun : ((candidates s : Sim (List Path)).run w).1 =
      (choose s (w.tree.walk w.here s.siteRoot (skipsDir s))).map (Discovery.place s) := rfl
  rw [hrun, List.mem_map]
  constructor
  · rintro ⟨file, hfile, rfl⟩
    rw [choose, List.mem_mergeSort, List.mem_filter, Tree.mem_walk_iff] at hfile
    obtain ⟨⟨hroot, hlisted, hdirs⟩, haccepts⟩ := hfile
    exact ⟨hroot, file, rfl, hlisted, hdirs, haccepts⟩
  · rintro ⟨hroot, file, rfl, hlisted, hdirs, haccepts⟩
    refine ⟨file, ?_, rfl⟩
    rw [choose, List.mem_mergeSort, List.mem_filter, Tree.mem_walk_iff]
    exact ⟨⟨hroot, hlisted, hdirs⟩, haccepts⟩

/-- Of the files in a list each is read, and kept if it is bound to the template. -/
theorem run_keepBound_cons {storage : Storage Sim} {first : Path} {w₁ : World}
    {read : Except OsError Text} (hread : (storage.readText first).run w = (read, w₁)) (name : Text)
    (paths : List Path) :
    ∃ w', w'.tree = w₁.tree ∧ w'.here = w₁.here ∧
      ((keepBound storage name (first :: paths) : Sim (List Path)).run w).1 =
        match read with
        | .ok text =>
          if isBoundTo name text then
            first :: ((keepBound storage name paths : Sim (List Path)).run w').1
          else ((keepBound storage name paths : Sim (List Path)).run w').1
        | .error _ => ((keepBound storage name paths : Sim (List Path)).run w').1 := by
  cases read with
  | error e =>
      refine ⟨w₁.after (.log .warning (Text.concat
        ["Skipping unreadable file ", first.text, ": ", e.message])), rfl, rfl, ?_⟩
      rw [keepBound, StateT.run_bind, hread]
      rfl
  | ok text =>
      refine ⟨w₁, rfl, rfl, ?_⟩
      rw [keepBound, StateT.run_bind, hread]
      rfl

theorem mem_keepBound_iff {name : Text} {paths : List Path} :
    path ∈ ((keepBound Storage.disk name paths : Sim (List Path)).run w).1 ↔
      path ∈ paths ∧ ∃ bytes, w.tree.read w.here path = .ok bytes ∧
        isBoundTo name (Text.decode bytes) = true := by
  induction paths generalizing w with
  | nil =>
      constructor
      · intro h
        cases h
      · rintro ⟨h, -⟩
        cases h
  | cons first paths ih =>
      have hread : ((Storage.disk : Storage Sim).readText first).run w =
          ((w.tree.read w.here first).map Text.decode, w.after (.read first)) := rfl
      obtain ⟨w', htree, hhere, hrun⟩ := run_keepBound_cons hread name paths
      replace htree : w'.tree = w.tree := htree
      replace hhere : w'.here = w.here := hhere
      have hlater := ih (w := w')
      rw [htree, hhere] at hlater
      rw [hrun, List.mem_cons]
      cases hdisk : w.tree.read w.here first with
      | error e =>
          dsimp only [Except.map]
          rw [hlater]
          constructor
          · rintro ⟨hmem, hbound⟩
            exact ⟨Or.inr hmem, hbound⟩
          · rintro ⟨rfl | hmem, bytes, hread, hbound⟩
            · rw [hdisk] at hread
              cases hread
            · exact ⟨hmem, bytes, hread, hbound⟩
      | ok found =>
          dsimp only [Except.map]
          by_cases hfirst : isBoundTo name (Text.decode found) = true
          · rw [if_pos hfirst, List.mem_cons, hlater]
            constructor
            · rintro (rfl | ⟨hmem, hbound⟩)
              · exact ⟨Or.inl rfl, found, hdisk, hfirst⟩
              · exact ⟨Or.inr hmem, hbound⟩
            · rintro ⟨rfl | hmem, hbound⟩
              · exact Or.inl rfl
              · exact Or.inr ⟨hmem, hbound⟩
          · rw [if_neg hfirst, hlater]
            constructor
            · rintro ⟨hmem, hbound⟩
              exact ⟨Or.inr hmem, hbound⟩
            · rintro ⟨rfl | hmem, bytes, hread, hbound⟩
              · rw [hdisk] at hread
                rw [Except.ok.inj hread] at hfirst
                exact absurd hbound hfirst
              · exact ⟨hmem, bytes, hread, hbound⟩

/-- The pages of a template are the candidates that can be read and are bound to it. -/
theorem mem_instances_iff {template : Path} :
    path ∈ ((instances s Storage.disk template : Sim (List Path)).run w).1 ↔
      path ∈ ((candidates s : Sim (List Path)).run w).1 ∧
        ∃ bytes, w.tree.read w.here path = .ok bytes ∧
          isBoundTo template.name (Text.decode bytes) = true :=
  mem_keepBound_iff (w := w)

/-! ## Folders -/

/-- A disk as a program meets it: every file lies in directories, under names that lead down. -/
structure IsDisk (here : Loc) (w : World) : Prop where
  sound : w.tree.WellFormed
  here_eq : w.here = here
  names : ∀ entry ∈ w.tree.files, ∀ part ∈ entry.1, IsName part

/-- Nothing below a folder is found, whatever lies on the disk. -/
def KeepsOut (here : Loc) (folder : Path) (found : World → List Path) : Prop :=
  ∀ w, IsDisk here w → ∀ path ∈ found w,
    isBelow (Tree.place here folder) (Tree.place here path) = false

/-- The way down to a folder leads through one that is never entered, or no file that can be come
upon in it is accepted. -/
def IsShut (s : Settings) (dirs : List Text) : Prop :=
  (∃ dir ∈ dirs, skipsDir s dir = true) ∨ ∀ rest, rest ≠ [] → (∀ part ∈ rest, IsName part) →
    (∀ dir ∈ rest.dropLast, skipsDir s dir = false) →
      accepts s (Text.join "/" (dirs ++ rest)) = false

/-- A candidate below a folder is come upon by entering all folders on the way. -/
theorem exists_of_candidate_below (hw : IsDisk here w)
    (hfolder : Tree.place here folder = Tree.place here s.siteRoot ++ dirs)
    (hpath : path ∈ ((candidates s : Sim (List Path)).run w).1)
    (hbelow : isBelow (Tree.place here folder) (Tree.place here path) = true) :
    ∃ rest, rest ≠ [] ∧ (∀ part ∈ rest, IsName part) ∧
      (∀ dir ∈ dirs ++ rest.dropLast, skipsDir s dir = false) ∧
        accepts s (Text.join "/" (dirs ++ rest)) = true := by
  obtain ⟨-, file, rfl, ⟨bytes, hlisted⟩, hskips, haccepts⟩ := mem_candidates_iff.mp hpath
  have hnames : ∀ part ∈ file, IsName part := fun part hpart =>
    hw.names _ hlisted part (List.mem_append_right _ hpart)
  rw [Tree.isBelow_iff] at hbelow
  obtain ⟨rest, hrest, heq⟩ := hbelow
  rw [Discovery.place, Tree.place_append here s.siteRoot hnames, hfolder, List.append_assoc] at heq
  obtain rfl := List.append_cancel_left heq
  rw [List.dropLast_append_of_ne_nil hrest] at hskips
  exact ⟨rest, hrest, fun part hpart => hnames part (List.mem_append_right _ hpart), hskips,
    haccepts⟩

/-- Where the way to a folder is open, a disk with one file in it shows that file. -/
theorem exists_candidate_below (hhere : ∀ part ∈ here, IsName part)
    (hroot : ∀ part ∈ s.siteRoot.parts, IsName part) (hnames : ∀ part ∈ dirs, IsName part)
    (hfolder : Tree.place here folder = Tree.place here s.siteRoot ++ dirs)
    (hopen : ¬ IsShut s dirs) (bytes : Bytes) :
    ∃ w, IsDisk here w ∧ ∃ path ∈ ((candidates s : Sim (List Path)).run w).1,
      w.tree.read w.here path = .ok bytes ∧
        isBelow (Tree.place here folder) (Tree.place here path) = true := by
  rw [IsShut, not_or] at hopen
  obtain ⟨henter, hmatch⟩ := hopen
  push Not at henter hmatch
  obtain ⟨rest, hrest, hrestNames, hskips, haccepts⟩ := hmatch
  have hfile : ∀ part ∈ dirs ++ rest, IsName part := List.forall_mem_append.mpr ⟨hnames, hrestNames⟩
  have hfull : Tree.place here (Discovery.place s (dirs ++ rest)) =
      Tree.place here s.siteRoot ++ (dirs ++ rest) := Tree.place_append here s.siteRoot hfile
  generalize hloc : Tree.place here s.siteRoot ++ (dirs ++ rest) = loc at hfull
  have hne : loc ≠ [] := by
    rw [← hloc]
    exact List.append_ne_nil_of_right_ne_nil _ (List.append_ne_nil_of_right_ne_nil _ hrest)
  have hwell : (Tree.lone loc bytes).WellFormed := Tree.wellFormed_lone bytes hne
  have hsite : (Tree.lone loc bytes).isDir here s.siteRoot = true := by
    have hdir : (Tree.lone loc bytes).node? (Tree.place here s.siteRoot) = some .dir := by
      refine Tree.dir_lone bytes ⟨_, hloc⟩ fun heq => hrest ?_
      have hnil := List.append_right_eq_self.mp (hloc.trans heq.symm)
      exact (List.append_eq_nil_iff.mp hnil).2
    refine Tree.isDir_iff.mpr ⟨hwell.locate (Path.parentName_not_mem hroot) ?_, hdir⟩
    rw [hdir]
    exact Option.some_ne_none _
  have hthere : (Tree.lone loc bytes).node? (Tree.place here (Discovery.place s (dirs ++ rest))) =
      some (.file bytes) := by
    rw [hfull, Tree.file_lone bytes hne]
  refine ⟨World.make (Tree.lone loc bytes) here [], ⟨hwell, rfl, ?_⟩, _,
    mem_candidates_iff.mpr ⟨hsite, dirs ++ rest, rfl, ⟨bytes, ?_⟩, ?_, ?_⟩, ?_, ?_⟩
  · intro entry hentry part hpart
    obtain rfl := Tree.mem_files_lone.mp hentry
    rw [← hfull] at hpart
    refine Tree.isName_of_mem_place hhere (fun part hpart => ?_) part hpart
    rcases List.mem_append.mp hpart with hpart | hpart
    · exact (hroot part hpart).isPart
    · exact (hfile part hpart).isPart
  · exact Tree.mem_files_lone.mpr (by rw [← hloc]; rfl)
  · rw [List.dropLast_append_of_ne_nil hrest]
    refine List.forall_mem_append.mpr ⟨fun dir hdir => ?_, fun dir hdir => ?_⟩
    · exact Bool.eq_false_iff.mpr (henter dir hdir)
    · exact hskips dir hdir
  · exact Bool.ne_false_iff.mp haccepts
  · refine Tree.read_eq_ok.mpr ⟨hwell.locate (Path.parentName_not_mem ?_) ?_, hthere⟩
    · exact List.forall_mem_append.mpr ⟨hroot, hfile⟩
    · show (Tree.lone loc bytes).node? (Tree.place here (Discovery.place s (dirs ++ rest))) ≠ none
      rw [hthere]
      exact Option.some_ne_none _
  · rw [hfull, hfolder, ← hloc, ← List.append_assoc]
    exact Tree.isBelow_iff.mpr ⟨rest, hrest, rfl⟩

/-- A page of a template. -/
def boundPage : Text := "<!-- InstanceBegin template=\"t.dwt\" -->"

theorem isBoundTo_boundPage :
    isBoundTo (Path.ofText "t.dwt").name (Text.decode boundPage.encode) = true := by decide +kernel

/-- A folder below the site is kept out of what is searched and of what is offered, on every disk,
just when it is shut. -/
theorem keepsOut_iff (hhere : ∀ part ∈ here, IsName part)
    (hroot : ∀ part ∈ s.siteRoot.parts, IsName part) (hnames : ∀ part ∈ dirs, IsName part)
    (hfolder : Tree.place here folder = Tree.place here s.siteRoot ++ dirs) :
    (KeepsOut here folder (fun w => ((candidates s : Sim (List Path)).run w).1) ↔ IsShut s dirs) ∧
      ((∀ template, KeepsOut here folder fun w =>
        ((instances s Storage.disk template : Sim (List Path)).run w).1) ↔ IsShut s dirs) := by
  have hshut : IsShut s dirs →
      KeepsOut here folder fun w => ((candidates s : Sim (List Path)).run w).1 := by
    intro hshut w hw path hpath
    by_contra hbelow
    obtain ⟨rest, hrest, hrestNames, hskips, haccepts⟩ :=
      exists_of_candidate_below hw hfolder hpath (Bool.ne_false_iff.mp hbelow)
    obtain ⟨henter, hrestSkips⟩ := List.forall_mem_append.mp hskips
    rcases hshut with ⟨dir, hdir, hskip⟩ | hmatch
    · rw [henter dir hdir] at hskip
      cases hskip
    · rw [hmatch rest hrest hrestNames hrestSkips] at haccepts
      cases haccepts
  have hopen : ¬ IsShut s dirs → ∃ w, IsDisk here w ∧
      ∃ path ∈ ((instances s Storage.disk (Path.ofText "t.dwt") : Sim (List Path)).run w).1,
        isBelow (Tree.place here folder) (Tree.place here path) = true := by
    intro hopen
    obtain ⟨w, hw, path, hpath, hread, hbelow⟩ :=
      exists_candidate_below hhere hroot hnames hfolder hopen boundPage.encode
    exact ⟨w, hw, path, mem_instances_iff.mpr ⟨hpath, _, hread, isBoundTo_boundPage⟩, hbelow⟩
  refine ⟨⟨fun hkeeps => ?_, hshut⟩, fun hkeeps => ?_, fun h template w hw path hpath => ?_⟩
  · by_contra hnot
    obtain ⟨w, hw, path, hpath, hbelow⟩ := hopen hnot
    rw [hkeeps w hw path (mem_instances_iff.mp hpath).1] at hbelow
    cases hbelow
  · by_contra hnot
    obtain ⟨w, hw, path, hpath, hbelow⟩ := hopen hnot
    rw [hkeeps _ w hw path hpath] at hbelow
    cases hbelow
  · exact hshut h w hw path (mem_instances_iff.mp hpath).1

/-- A site whose templates lie in a folder of another name than the usual one. -/
def renamed : Settings :=
  { Settings.default ⟨.slash, ["site"]⟩ with templatesDirName := "tpl" }

/-- The usual folders are kept out, but templates that lie elsewhere are searched and offered. -/
theorem not_keepsOut_renamed :
    (Settings.default ⟨.slash, ["site"]⟩).apply
        [("templates_dir_name", .string "tpl")] = .ok renamed ∧
      renamed.templatesDir = ⟨.slash, ["site", "tpl"]⟩ ∧
      ¬ KeepsOut [] renamed.templatesDir
        (fun w => ((candidates renamed : Sim (List Path)).run w).1) ∧
      (¬ ∀ template, KeepsOut [] renamed.templatesDir fun w =>
        ((instances renamed Storage.disk template : Sim (List Path)).run w).1) ∧
      KeepsOut [] renamed.backupRoot
        (fun w => ((candidates renamed : Sim (List Path)).run w).1) := by
  have hopen : ¬ IsShut renamed ["tpl"] := by
    rintro (⟨dir, hdir, hskip⟩ | hmatch)
    · have hno : skipsDir renamed "tpl" = false := by decide +kernel
      rw [List.mem_singleton.mp hdir, hno] at hskip
      cases hskip
    · have haccepts : accepts renamed (Text.join "/" ([("tpl" : Text)] ++ [("a.html" : Text)])) = true := by
        decide +kernel
      rw [hmatch ["a.html"] (List.cons_ne_nil _ _)
        (List.forall_mem_singleton.mpr ⟨by decide, by decide⟩) (by simp)] at haccepts
      cases haccepts
  have hshut : IsShut renamed [".html-dwt-template-backups"] :=
    Or.inl ⟨_, List.mem_singleton_self _, by decide +kernel⟩
  have hroot : ∀ part ∈ renamed.siteRoot.parts, IsName part :=
    List.forall_mem_singleton.mpr ⟨by decide, by decide⟩
  obtain ⟨hcandidates, hinstances⟩ := @keepsOut_iff renamed [] renamed.templatesDir ["tpl"]
    (by simp) hroot (List.forall_mem_singleton.mpr ⟨by decide, by decide⟩) (by decide +kernel)
  obtain ⟨hbackups, -⟩ := @keepsOut_iff renamed [] renamed.backupRoot
    [".html-dwt-template-backups"] (by simp) hroot
    (List.forall_mem_singleton.mpr ⟨by decide, by decide⟩) (by decide +kernel)
  have happly : (Settings.default ⟨.slash, ["site"]⟩).apply
      [("templates_dir_name", .string "tpl")] = .ok renamed := by
    rw [Settings.apply, if_pos (by decide +kernel)]
    rfl
  exact ⟨happly, by decide +kernel, hcandidates.not.mpr hopen, hinstances.not.mpr hopen,
    hbackups.mpr hshut⟩

end Discovery

end Stencil

import Stencil.Proofs.Undo.Gathering
import Stencil.Proofs.Undo.Shelves

/-!
# What the end of a run removes

The end of a run removes the directory that the last manifest named when the run took its first
snapshot, whatever that name is: exactly the files below it go (`finalize_prunes`). If it lies in
a directory at the backup root other than that of the run then all else survives, and the run can
be undone. If it lies anywhere else, as the name of no directory or one with double dots can have
it, nothing holds the removal back.
-/

namespace Stencil

open Stencil.Path (IsName)
open Stencil.Tree (place OnWay Changes Loses WellFormed)

section Pruning

variable {root path dir : Path} {here site loc : Loc} {run name : Text} {t t' u : Tree}
  {m previous : Manifest} {s s' s'' : Standing Backups} {paths : List Path} {P T : Loc → Prop}

/-! ## Files that go -/

/-- A file has gone. -/
def Gone (t t' : Tree) (loc : Loc) : Prop := t.bytes? loc ≠ none ∧ t'.bytes? loc = none

theorem Tree.Changes.not_gone (h : Changes P T t t') (loc : Loc) : ¬ Gone t t' loc :=
  fun hgone => h.files loc hgone.1 hgone.2

theorem gone_removeTree (h : Changes P T t u) (hdir : u.isDir here dir = true) :
    Gone t (u.removeTree here dir).1 loc ↔ t.bytes? loc ≠ none ∧ place here dir <+: loc := by
  rw [Gone, Tree.removeTree_bytes?]
  refine and_congr_right fun hthere => ⟨fun hnone => ?_, fun hbelow => if_pos ⟨hdir, hbelow⟩⟩
  by_contra hnot
  rw [if_neg fun hand => hnot hand.2] at hnone
  exact h.files loc hthere hnone

theorem eq_of_below_both {above : Loc} {name name' : Text} (h : above ++ [name] <+: loc)
    (h' : above ++ [name'] <+: loc) : name = name' := by
  have hle : (above ++ [name]).length ≤ (above ++ [name']).length := by
    rw [List.length_append, List.length_append, List.length_singleton, List.length_singleton]
  have hstarts := List.prefix_of_prefix_length_le h h' hle
  rw [List.prefix_append_right_inj, List.cons_prefix_cons] at hstarts
  exact hstarts.1

/-! ## What is noted -/

theorem found?_changes (h : Backups.found? root here t = some m) (hchanges : Changes P T t u)
    (hlast : ¬ T (place here (Backups.lastPath root))) : Backups.found? root here u = some m := by
  obtain ⟨bytes, value, hread, hvalue, hmanifest⟩ := Backups.found?_eq_some.mp h
  exact Backups.found?_eq_some.mpr ⟨bytes, value, hchanges.read hlast hread, hvalue, hmanifest⟩

theorem last_not_isOwn (hlast : run ≠ Backups.lastFileName) :
    ¬ IsOwn root here run (place here (Backups.lastPath root)) :=
  fun h => h.elim (Backups.lastPath_not_kept here root hlast)
    fun hnot => hnot (Backups.place_root_prefix_last here root)

/-- The run has noted that it makes the directory obsolete that a manifest names. -/
def NotesDir (run : Text) (previous : Manifest) (s : Standing Backups) : Prop :=
  s.memory.replaced.lookup run = some (some (Backups.runDir s.memory.root previous.runId))

/-- A run that has listed a file has noted the directory that the last manifest named at first, or
that there is none to be noted. -/
theorem Gathered.notes (h : Gathered run s s' m) (hlast : run ≠ Backups.lastFileName)
    (hfound : Backups.found? s.memory.root s.world.here s.world.tree = some previous)
    (hentries : m.entries ≠ []) :
    (s'.memory.replaced.lookup run = some none ∨ NotesDir run previous s' ∧ previous.runId ≠ run ∧
      s'.world.tree.isDir s.world.here (Backups.runDir s.memory.root previous.runId) = true) ∧
    (previous.runId ≠ run →
      s.world.tree.isDir s.world.here (Backups.runDir s.memory.root previous.runId) = true →
      NotesDir run previous s') := by
  obtain ⟨t, hcalm, hdirs, hnoted⟩ := h.noted hentries
  have hfound' := found?_changes hfound hcalm (last_not_isOwn hlast)
  rw [NotesDir, h.root, hnoted]
  refine ⟨?_, fun hne hdir => ?_⟩
  · cases hobsolete : Backups.obsolete? s.memory.root run s.world.here t with
    | none => exact Or.inl rfl
    | some dir =>
        obtain ⟨previous', hprevious', hne, rfl, hdir⟩ := Backups.obsolete?_eq_some.mp hobsolete
        obtain rfl := Option.some.inj (hfound'.symm.trans hprevious')
        exact Or.inr ⟨rfl, hne, Tree.isDir_of_dirs hdirs hdir⟩
  · exact congrArg some (Backups.obsolete?_eq_some.mpr
      ⟨previous, hfound', hne, rfl, Tree.isDir_of_dirs hcalm.dirs hdir⟩)

/-! ## Copies of a run -/

/-- The backup root can be reached where a last manifest can be read. -/
theorem Published.isDir (h : Published root here m t) : t.isDir here root = true := by
  obtain ⟨bytes, -, hread⟩ := h
  have hname : (Backups.lastPath root).parts.getLast? = some Backups.lastFileName := by
    rw [Backups.lastPath_eq]
    exact List.getLast?_concat
  have hparent := (Tree.locate_iff hname).mp (Tree.read_eq_ok.mp hread).1
  rwa [lastPath_parent] at hparent

theorem place_runDir (root : Path) (here : Loc) (hrun : IsName run) :
    place here (Backups.runDir root run) = place here root ++ [run] := by
  rw [Backups.runDir_eq root hrun]
  exact Backups.place_kept here root hrun fun part hpart => by cases hpart

theorem isDir_runDir (hroot : t.isDir here root = true) (hrun : IsName run)
    (hmade : t.node? (place here root ++ [run]) = some .dir) :
    t.isDir here (Backups.runDir root run) = true := by
  refine Tree.isDir_iff.mpr ⟨?_, ?_⟩
  · rw [Backups.runDir_eq root hrun]
    have hname : (Backups.kept root run []).parts.getLast? = some run := List.getLast?_concat
    refine (Tree.locate_iff hname).mpr ?_
    rwa [kept_parent_nil]
  · rwa [place_runDir root here hrun]

/-- What a run finds out if the manifest is the last one. -/
theorem Published.obsolete? (h : Published root here m t) (hid : IsName m.runId)
    (hmade : t.node? (place here root ++ [m.runId]) = some .dir) (run : Text) :
    Backups.obsolete? root run here t =
      if m.runId = run then none else some (Backups.runDir root m.runId) := by
  rw [Backups.obsolete?, h.found?, Option.bind_some, isDir_runDir h.isDir hid hmade, if_pos rfl]

/-- Without a last manifest there is nothing to find out. -/
theorem obsolete?_of_bytes? (h : t.bytes? (place here (Backups.lastPath root)) = none) :
    Backups.obsolete? root run here t = none := by
  have hnone : Backups.found? root here t = none := by
    refine Option.eq_none_iff_forall_not_mem.mpr fun m hfound => ?_
    obtain ⟨bytes, -, hread, -⟩ := Backups.found?_eq_some.mp hfound
    cases (Tree.bytes?_eq_some.mpr (Tree.read_eq_ok.mp hread).2).symm.trans h
  rw [Backups.obsolete?, hnone]
  rfl

/-- Every file that a run has listed has its copy. -/
def IsShelved (root : Path) (here site : Loc) (run : Text) (m : Manifest) (t : Tree) : Prop :=
  ∀ e ∈ m.entries, ∃ parts, CopyOf root here site run e parts t ∧
    t.bytes? (place here root ++ run :: parts) ≠ none

theorem IsShelved.changes (h : IsShelved root here site run m t) (hchanges : Changes P T t u) :
    IsShelved root here site run m u := fun e he => by
  obtain ⟨parts, hcopy, hthere⟩ := h e he
  exact ⟨parts, hcopy.changes hchanges, hchanges.files _ hthere⟩

/-- A snapshot lists nothing but what it has copied. -/
theorem IsShelved.copies {parts : List Text} {result : Except Failure BackupEntry} {m' : Manifest}
    (h : IsShelved root here site run m s.world.tree) (hlookup : s.memory.runs.lookup run = some m)
    (hsource : IsSource root here site run parts)
    (hcopies : Copies root here site run parts m s result s')
    (hm' : s'.memory.runs.lookup run = some m') :
    IsShelved root here site run m' s'.world.tree := by
  cases hcopies with
  | rests hmemory hlisted hchanges =>
      rw [hmemory] at hm'
      obtain rfl := Option.some.inj (hlookup.symm.trans hm')
      exact h.changes hchanges
  | @keeps bytes t hunlisted hbytes hcopied hmemory hchanges hcopy hpublished =>
      rw [hmemory] at hm'
      obtain rfl := Option.some.inj ((Backups.lookup_setRun _ _ _).symm.trans hm')
      intro e he
      rcases List.mem_append.mp he with he | he
      · exact h.changes hchanges e he
      · obtain rfl := List.mem_singleton.mp he
        refine ⟨parts, ⟨hsource, rfl, hchanges.files _ ?_⟩, ?_⟩
        · rw [hbytes]
          exact Option.some_ne_none _
        · rw [hcopy]
          exact Option.some_ne_none _

/-- A run that takes snapshots of files below the site. -/
theorem Gathers.isShelved (h : Gathers run s paths s') (hbegun : Begun run s)
    (hsite : place s.world.here s.memory.site = site)
    (hpaths : ∀ path ∈ paths, Run.IsCandidate s.memory.root s.world.here site run path) :
    Mirrors s.memory.root s.world.here site run s'.world.tree ∧
      ∀ m, s'.memory.runs.lookup run = some m →
        IsShelved s.memory.root s.world.here site run m s'.world.tree := by
  induction h with
  | begun =>
      refine ⟨.of_vacant hbegun.vacant, fun m hm e he => ?_⟩
      obtain ⟨m', hlookup, -, hentries⟩ := hbegun.empty
      obtain rfl := Option.some.inj (hlookup.symm.trans hm)
      rw [hentries] at he
      cases he
  | @snapshot paths s' h storage hs path hpath hsite' ih =>
      obtain ⟨hmirrors, hshelved⟩ := ih fun path hmem => hpaths path (List.mem_cons_of_mem _ hmem)
      obtain ⟨m, hgathered⟩ := h.exists_gathered hbegun
      obtain ⟨parts, hplace, hsource⟩ :=
        (hpaths path List.mem_cons_self).exists_source hbegun.sound.here
      have hsound : s'.world.IsSound :=
        ⟨hgathered.changes.wellFormed, hgathered.here ▸ hbegun.sound.here⟩
      have hsiteEq : place s.world.here s'.memory.site = site := hgathered.site ▸ hsite
      obtain ⟨-, hcopies, hmirrors'⟩ := snapshot_copies hs hsound hgathered.root hgathered.here hsiteEq
        hbegun.isId hgathered.lookup hgathered.runId hpath hplace hsource hmirrors
      exact ⟨hmirrors' run hbegun.isId hmirrors, fun m' hm' =>
        (hshelved m hgathered.lookup).copies hgathered.lookup hsource hcopies hm'⟩
  | @elsewhere paths s' h t hchanges ih =>
      obtain ⟨hmirrors, hshelved⟩ := ih hpaths
      obtain ⟨m, hgathered⟩ := h.exists_gathered hbegun
      rw [hgathered.root, hgathered.here] at hchanges
      refine ⟨hmirrors.changes hchanges fun q _ hnot => ?_,
        fun m' hm' => (hshelved m' hm').changes hchanges⟩
      exact absurd (List.prefix_append _ _) hnot

/-! ## What survives -/

/-- The way to the backup root leads to nothing below it, as only double dots could make it do. -/
def IsStraight (root : Path) (here : Loc) : Prop :=
  ∀ name loc, OnWay here root loc → ¬ place here root ++ [name] <+: loc

theorem isStraight_of_not_mem (here : Loc) (h : Path.parentName ∉ root.parts) : IsStraight root here :=
  fun name _ hway => hway.not_below h name

/-- Nothing has gone but below one directory at the backup root, which is not that of the run, and
the run can be undone. -/
structure Survives (root : Path) (here site : Loc) (run : Text) (paths : List Path) (m : Manifest)
    (t : Tree) (w : World) : Prop where
  confined : ∃ name, name ≠ run ∧ ∀ loc, Gone t w.tree loc → place here root ++ [name] <+: loc
  elsewhere : ∀ loc, IsElsewhere root here loc → w.tree.bytes? loc = t.bytes? loc
  /-- All that the run keeps is there, and but for its manifest as it was. -/
  own : ∀ parts, ¬ Gone t w.tree (place here root ++ run :: parts) ∧
    (parts ≠ [Backups.manifestName run] →
      w.tree.bytes? (place here root ++ run :: parts) = t.bytes? (place here root ++ run :: parts))
  last : ∃ w', (Backups.lastManifest root : Act Sim _).run.run w = (.ok (some m), w')
  /-- Every file that the run has listed gets what its copy holds. -/
  restores : (∀ path ∈ paths, Run.IsCandidate root here site run path) →
    ∃ w', (Backups.restore root Storage.disk : Act Sim Nat).run.run w = (.ok m.entries.length, w') ∧
      ∀ e ∈ m.entries, ∃ bytes, w.tree.read here (Path.ofText e.backup) = .ok bytes ∧
        w'.tree.bytes? (place here (Path.ofText e.file)) = some bytes

/-- Removing what lies in a directory of another name does the last manifest no harm. -/
theorem Published.removeTree (h : Published root here m t) (ht : t.WellFormed)
    (hapart : ∀ loc, OnWay here root loc → ¬ place here root ++ [name] <+: loc)
    (hdir : t.isDir here dir = true)
    (hbelow : place here root ++ [name] <+: place here dir) :
    Published root here m (t.removeTree here dir).1 := by
  obtain ⟨bytes, hbytes, hread⟩ := h
  obtain ⟨rest, hrest⟩ := hbelow
  -- there is a file where the last manifest is, and so no directory
  have hname : name ≠ Backups.lastFileName := by
    rintro rfl
    have hlast := (Tree.read_eq_ok.mp hread).2
    have hnode := (Tree.isDir_iff.mp hdir).2
    rw [Backups.place_lastPath] at hlast
    rw [← hrest] at hnode
    have hdirLast : t.node? (place here root ++ [Backups.lastFileName]) = some .dir := by
      by_cases hnil : rest = []
      · rwa [hnil, List.append_nil] at hnode
      · exact ht.dir_above hnil (by rw [hnode]; exact Option.some_ne_none _)
    cases hlast.symm.trans hdirLast
  have hbelow' : place here root ++ [name] <+: place here dir := ⟨rest, hrest⟩
  refine ⟨bytes, hbytes, (Loses.removeTree ht here dir).read (fun loc hway hgone => ?_) hread⟩
  rw [Backups.lastPath_eq] at hway
  refine Tree.not_prefix_of_onWay hapart
    (List.forall_mem_singleton.mpr Backups.isName_lastFileName) (fun part hpart => ?_) hway
    (hbelow'.trans hgone)
  exact Option.some.inj hpart ▸ hname.symm

/-- One directory has been removed, or none. It lies in a directory at the backup root of another
name than that of the run. -/
inductive Prunes (root : Path) (here : Loc) (run : Text) (t : Tree) : Tree → Prop
  | keeps : Prunes root here run t t
  | removes {name : Text} {dir : Path} (hname : name ≠ run) (hdir : t.isDir here dir = true)
      (hbelow : place here root ++ [name] <+: place here dir) :
      Prunes root here run t (t.removeTree here dir).1

theorem Prunes.wellFormed (h : Prunes root here run t u) (ht : t.WellFormed) : u.WellFormed := by
  cases h with
  | keeps => exact ht
  | removes hname hdir hbelow => exact (Tree.removeTree_spares ht _ _).1

theorem Prunes.published (h : Prunes root here run t u) (hpublished : Published root here m t)
    (ht : t.WellFormed) (hstraight : IsStraight root here) : Published root here m u := by
  cases h with
  | keeps => exact hpublished
  | removes hname hdir hbelow => exact hpublished.removeTree ht (hstraight _) hdir hbelow

theorem Prunes.bytes?_cases (h : Prunes root here run t u) (hlast : run ≠ Backups.lastFileName) :
    ∃ name, name ≠ run ∧ ∀ loc, u.bytes? loc = t.bytes? loc ∨
      place here root ++ [name] <+: loc ∧ u.bytes? loc = none := by
  cases h with
  | keeps => exact ⟨_, hlast.symm, fun loc => Or.inl rfl⟩
  | @removes name dir hname hdir hbelow =>
      refine ⟨name, hname, fun loc => ?_⟩
      rw [Tree.removeTree_bytes?]
      split
      · next hand => exact Or.inr ⟨hbelow.trans hand.2, rfl⟩
      · exact Or.inl rfl

/-- What a run keeps stays, and so does what lies elsewhere. -/
theorem Prunes.bytes? (h : Prunes root here run t u) (hlast : run ≠ Backups.lastFileName)
    (hloc : IsOwn root here run loc) : u.bytes? loc = t.bytes? loc := by
  obtain ⟨name, hname, hcases⟩ := h.bytes?_cases hlast
  refine (hcases loc).resolve_right fun hand => ?_
  rcases hloc with hown | helsewhere
  · exact hname (eq_of_below_both hand.1 hown)
  · exact helsewhere ((List.prefix_append _ _).trans hand.1)

theorem IsShelved.prunes (h : IsShelved root here site run m t) (hprunes : Prunes root here run t u)
    (hlast : run ≠ Backups.lastFileName) : IsShelved root here site run m u := fun e he => by
  obtain ⟨parts, hcopy, hthere⟩ := h e he
  refine ⟨parts, ⟨hcopy.source, hcopy.entry, ?_⟩, ?_⟩
  · rw [hprunes.bytes? hlast (Or.inr hcopy.source.outside)]
    exact hcopy.there
  · rwa [hprunes.bytes? hlast (isOwn_of_mem rfl)]

/-! ## The end -/

/-- Nothing goes but what lies in the directory that has been noted, once the manifest has been
written. -/
theorem Gathered.gone_iff {result : Except Failure Path} (h : Gathered run s s' m)
    (hlast : run ≠ Backups.lastFileName)
    (hfound : Backups.found? s.memory.root s.world.here s.world.tree = some previous)
    (hentries : m.entries ≠ []) (hfinishes : Finishes run m s' result s'') :
    Gone s'.world.tree s''.world.tree loc ↔ result = .ok (Backups.lastPath s.memory.root) ∧
      NotesDir run previous s' ∧ s'.world.tree.bytes? loc ≠ none ∧
      place s.world.here (Backups.runDir s.memory.root previous.runId) <+: loc := by
  cases hfinishes with
  | fails hresult hmemory hwritten =>
      obtain ⟨e, rfl⟩ := hresult
      exact iff_of_false (hwritten.not_gone loc) fun hand => by cases hand.1
  | ends hresult hmemory hwritten hpublished hremoved =>
      rw [h.root] at hresult
      rw [hremoved, h.here]
      rcases (h.notes hlast hfound hentries).1 with hnone | ⟨hnotes, -, hdir⟩
      · rw [hnone]
        refine iff_of_false (hwritten.not_gone loc) fun hand => ?_
        cases hnone.symm.trans hand.2.1
      · rw [hnotes, h.root]
        refine (gone_removeTree hwritten (Tree.isDir_of_dirs hwritten.dirs hdir)).trans ?_
        exact ⟨fun hand => ⟨hresult, hnotes, hand⟩, fun hand => hand.2.2⟩

/-- If what has been noted lies in a directory of another name, all is well. -/
theorem Gathered.survives (h : Gathered run s s' m) (hbegun : Begun run s)
    (hgathers : Gathers run s paths s') (hroot : s.memory.root.IsProper)
    (hstraight : IsStraight s.memory.root s.world.here)
    (hfound : Backups.found? s.memory.root s.world.here s.world.tree = some previous)
    (hentries : m.entries ≠ []) (hhere : s''.world.here = s.world.here)
    (hfinishes : Finishes run m s' (.ok (Backups.lastPath s.memory.root)) s'')
    (hconfined : NotesDir run previous s' → ∃ name, name ≠ run ∧
      place s.world.here s.memory.root ++ [name] <+:
        place s.world.here (Backups.runDir s.memory.root previous.runId)) :
    Survives s.memory.root s.world.here (place s.world.here s.memory.site) run paths m s'.world.tree
      s''.world := by
  have hlast := hbegun.isId.ne_last
  cases hfinishes with
  | fails hresult =>
      obtain ⟨e, heq⟩ := hresult
      cases heq
  | @ends t hresult hmemory hwritten hpublished hremoved =>
      rw [h.root, h.here] at hwritten hpublished
      have hprunes : Prunes s.memory.root s.world.here run t s''.world.tree := by
        rw [hremoved, h.here]
        rcases (h.notes hlast hfound hentries).1 with hnone | ⟨hnotes, -, hdir⟩
        · rw [hnone]
          exact .keeps
        · obtain ⟨name, hname, hbelow⟩ := hconfined hnotes
          rw [hnotes, h.root]
          exact .removes hname (Tree.isDir_of_dirs hwritten.dirs hdir) hbelow
      have hpublished' := hprunes.published hpublished hwritten.wellFormed hstraight
      have hsame : ∀ loc, IsOwn s.memory.root s.world.here run loc →
          loc ≠ place s.world.here s.memory.root ++ [run, Backups.manifestName run] →
          s''.world.tree.bytes? loc = s'.world.tree.bytes? loc := fun loc hown hne => by
        rw [hprunes.bytes? hlast hown, hwritten.bytes? fun hor => hor.elim hne fun heq => ?_]
        exact last_not_isOwn hlast (heq ▸ hown)
      refine ⟨?_, fun loc hloc => ?_, fun parts => ⟨?_, fun hne => ?_⟩, ?_, fun hpaths => ?_⟩
      · obtain ⟨name, hname, hcases⟩ := hprunes.bytes?_cases hlast
        refine ⟨name, hname, fun loc hgone => ?_⟩
        rcases hcases loc with heq | hand
        · refine absurd ⟨hgone.1, ?_⟩ (hwritten.not_gone loc)
          rw [← heq]
          exact hgone.2
        · exact hand.1
      · refine hsame loc (Or.inr hloc) ?_
        rintro rfl
        exact hloc (List.prefix_append _ _)
      · rw [Gone, hprunes.bytes? hlast (isOwn_of_mem rfl)]
        exact hwritten.not_gone _
      · refine hsame _ (isOwn_of_mem rfl) fun heq => hne ?_
        exact (List.cons.inj (List.append_cancel_left heq)).2
      · exact ⟨_, hpublished'.lastManifest rfl hhere⟩
      · have hshelved := (hgathers.isShelved hbegun rfl hpaths).2 m h.lookup
        have hshelved' := (hshelved.changes hwritten).prunes hprunes hlast
        have hrunId := h.runId
        rw [← hhere] at hshelved' hpublished' ⊢
        subst hrunId
        exact restore_copies hroot hbegun.isId.isName (hprunes.wellFormed hwritten.wellFormed)
          hpublished'.isDir hpublished' hshelved'

/-- The end of a run that has listed a file. What it removes is what the last manifest named when
the run began, if it names a directory that is there and another than that of the run. -/
theorem finalize_prunes {result : Except Failure Path} (hbegun : Begun run s)
    (hfound : Backups.found? s.memory.root s.world.here s.world.tree = some previous)
    (hgathers : Gathers run s paths s') (hlookup : s'.memory.runs.lookup run = some m)
    (hentries : m.entries ≠ []) (hplay : play (Backups.finalize run) s' = (result, s'')) :
    (∀ loc, ¬ Gone s.world.tree s'.world.tree loc) ∧
    (∀ loc, Gone s'.world.tree s''.world.tree loc ↔
      result = .ok (Backups.lastPath s.memory.root) ∧ NotesDir run previous s' ∧
        s'.world.tree.bytes? loc ≠ none ∧
        place s.world.here (Backups.runDir s.memory.root previous.runId) <+: loc) ∧
    (NotesDir run previous s' → previous.runId ≠ run) ∧
    (previous.runId ≠ run →
      s.world.tree.isDir s.world.here (Backups.runDir s.memory.root previous.runId) = true →
      NotesDir run previous s') ∧
    (result = .ok (Backups.lastPath s.memory.root) → s.memory.root.IsProper →
      IsStraight s.memory.root s.world.here →
      (NotesDir run previous s' → ∃ name, name ≠ run ∧
        place s.world.here s.memory.root ++ [name] <+:
          place s.world.here (Backups.runDir s.memory.root previous.runId)) →
      Survives s.memory.root s.world.here (place s.world.here s.memory.site) run paths m s'.world.tree
        s''.world) := by
  obtain ⟨m', h⟩ := hgathers.exists_gathered hbegun
  obtain rfl := Option.some.inj (h.lookup.symm.trans hlookup)
  have hlast := hbegun.isId.ne_last
  have hid : IsId s'.memory.root s'.world.here run := by
    rw [h.root, h.here]
    exact hbegun.isId
  obtain ⟨hhere, hfinishes⟩ := finalize_finishes h.changes.wellFormed hid h.lookup h.runId
  rw [hplay] at hhere hfinishes
  obtain ⟨hnotes, hnoted⟩ := h.notes hlast hfound hentries
  refine ⟨h.changes.not_gone, fun loc => h.gone_iff hlast hfound hentries hfinishes,
    fun hnotes' => ?_, hnoted, fun hok hroot hstraight hconfined => ?_⟩
  · rcases hnotes with hnone | ⟨-, hne, -⟩
    · cases hnone.symm.trans hnotes'
    · exact hne
  · exact h.survives hbegun hgathers hroot hstraight hfound hentries (hhere.trans h.here)
      (hok ▸ hfinishes) hconfined

end Pruning

/-! ## Names in a last manifest

The last manifest names a run as it pleases, and then a run takes a snapshot of one page and ends.
-/

namespace NamedRun

def site : Path := ⟨.slash, ["s"]⟩

def root : Path := site.child "b"

def page : Path := site.child "a.html"

def named (runId : Text) : Manifest := ⟨"t", runId, [], [], []⟩

def disk (runId : Text) : Tree :=
  ⟨[(["s"], .dir), (["s", "a.html"], .file ("now" : Text).encode), (["s", "b"], .dir),
    (["s", "b", "old"], .dir), (["s", "b", "old", "a.html"], .file ("then" : Text).encode),
    (["s", "b", "last_backup.json"], .file ((Json.writeBytes? (named runId).toJson).getD []))]⟩

def run : Text := World.runName 1

def start (runId : Text) : Standing Backups :=
  ⟨⟨root, site, [], []⟩, World.make (disk runId) [] "1"⟩

def begun (runId : Text) : Standing Backups := (play (Backups.begin "t") (start runId)).2

def gathered (runId : Text) : Standing Backups :=
  (play (Backups.snapshot Storage.disk run page) (begun runId)).2

def listed (runId : Text) : Manifest := ((gathered runId).memory.runs.lookup run).getD (named runId)

def ended (runId : Text) : Except Failure Path × Standing Backups :=
  play (Backups.finalize run) (gathered runId)

/-- Double dots that lead back into the backup root. -/
def crafted : Text := "../b/old"

theorem begun_crafted : Begun run (begun crafted) := by
  have hid : IsId root [] run := ⟨World.now.isName_runName 1, World.now.runName_ne_lastFileName 1,
    fun loc hway => hway.not_below (by decide) _⟩
  have hsound : (start crafted).world.IsSound :=
    ⟨Tree.wellFormed_of_nodes (by decide +kernel), fun part hpart => by cases hpart⟩
  have hvacant : Vacant root [] run (disk crafted) := fun rest => by
    have hfree : ∀ entry ∈ (disk crafted).nodes, ¬ place [] root ++ [run] <+: entry.1 := by
      decide +kernel
    have hnone := Tree.node?_append_eq_none hfree (List.append_ne_nil_of_right_ne_nil _
      (List.cons_ne_nil _ _)) rest
    rwa [List.append_assoc, List.singleton_append] at hnone
  have hbegun := begun_begin "t" hsound hid hvacant rfl
  exact hbegun

theorem gathers_crafted : Gathers run (begun crafted) [page] (gathered crafted) :=
  .snapshot .begun Storage.overDisk_disk (by decide) (by decide)

theorem finalize_prunes_crafted : Begun run (begun crafted) ∧
    Backups.found? root [] (begun crafted).world.tree = some (named crafted) ∧
    Gathers run (begun crafted) [page] (gathered crafted) ∧
    (gathered crafted).memory.runs.lookup run = some (listed crafted) ∧
    (listed crafted).entries ≠ [] ∧ NotesDir run (named crafted) (gathered crafted) ∧
    Gone (gathered crafted).world.tree (ended crafted).2.world.tree ["s", "b", "old", "a.html"] ∧
    Survives root [] (place [] site) run [page] (listed crafted) (gathered crafted).world.tree
      (ended crafted).2.world := by
  have hfound : Backups.found? root [] (begun crafted).world.tree = some (named crafted) := by
    decide +kernel
  -- one evaluation for all that is to be known of the run
  have hall : (gathered crafted).memory.runs.lookup run = some (listed crafted) ∧
      (listed crafted).entries ≠ [] ∧
      (gathered crafted).memory.replaced.lookup run =
        some (some (Backups.runDir (gathered crafted).memory.root crafted)) ∧
      (ended crafted).1.toOption = some (Backups.lastPath root) ∧
      (gathered crafted).world.tree.bytes? ["s", "b", "old", "a.html"] ≠ none := by
    decide +kernel
  obtain ⟨hlookup, hentries, hnotes, hok, hthere⟩ := hall
  replace hok := Backups.toOption_eq_some.mp hok
  obtain ⟨-, hgone, -, -, hsurvives⟩ := finalize_prunes begun_crafted hfound gathers_crafted hlookup
    hentries (rfl : ended crafted = ((ended crafted).1, (ended crafted).2))
  refine ⟨begun_crafted, hfound, gathers_crafted, hlookup, hentries, hnotes, (hgone _).mpr ?_,
    hsurvives hok (by decide) (isStraight_of_not_mem [] (by decide)) fun _ => ?_⟩
  · exact ⟨hok, hnotes, hthere, by decide +kernel⟩
  · exact ⟨"old", by decide +kernel, by decide +kernel⟩

/-- The name of no directory names the backup root itself. Then the last manifest goes, too, and
there is nothing left to be undone. -/
example : ((Backups.lastManifest root : Act Sim _).run.run (ended []).2.world).1.toOption =
    some none := by
  decide +kernel

end NamedRun

end Stencil

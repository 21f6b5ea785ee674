import Stencil.Proofs.Discovery.Walk
import Stencil.Proofs.Document.Binding
import Stencil.Proofs.Run.Answers
import Stencil.Proofs.Run.UpToDate
import Stencil.Proofs.Run.Whole
import Stencil.Proofs.Run.Writing

/-!
# The pages found are the pages told

The search for the pages of a template reads the first binding of a text and nothing else of it,
while a run builds the page and then compares the names. Both come to the same (`isBoundTo_iff`,
`visit_ne_none_iff`). So a run over what was found leaves nothing out without a word
(`instances_told`): what it does to other files on the way can make them copies of pages of the
template, but of no other (`Echoes`). Only where it keeps its own manifests is it not so.
-/

namespace Stencil

open Stencil.Tree (place)

/-! ## Bindings -/

namespace Discovery

variable {name text source : Text}

/-- A page names its template by the binding that the search for pages reads. -/
theorem isBoundTo_of_build {page : Page} (h : Page.build text source = .ok page) :
    isBoundTo name text = true ↔ page.templateName = name := by
  rw [isBoundTo, Marker.readBinding?, Page.firstBinding?_of_bindingOf (Page.bindingOf_of_build h)]
  exact decide_eq_true_iff

/-- A text is found for a template when it is a page of it, or is malformed but its first binding
names the template all the same. -/
theorem isBoundTo_iff (source : Text) : isBoundTo name text = true ↔
    (∃ page, Page.build text source = .ok page ∧ page.templateName = name) ∨
      ∃ fault binding, Page.build text source = .error fault ∧
        Marker.firstBinding? (Marker.scan text) = some binding ∧
        templateBasename binding.name = name := by
  cases hbuild : Page.build text source with
  | ok page => simp [isBoundTo_of_build hbuild]
  | error fault =>
      rw [isBoundTo, Marker.readBinding?]
      cases Marker.firstBinding? (Marker.scan text) with
      | none => simp
      | some binding => simp

end Discovery

/-! ## What a visit does to other files -/

/-- From one world to the next every file, but for those at some places, is what it was, or has
become what the file at one place was. -/
structure Echoes (others : Loc → Prop) (source : Loc) (w w' : World) : Prop where
  sound : w'.IsSound
  here : w'.here = w.here
  bytes? : ∀ loc, ¬ others loc → w'.tree.bytes? loc = w.tree.bytes? loc ∨
    w'.tree.bytes? loc = w.tree.bytes? source

namespace Echoes

variable {others others' : Loc → Prop} {source : Loc} {w w' w'' : World} {events : List Event}

theorem refl (hw : w.IsSound) : Echoes others source w w := ⟨hw, rfl, fun _ _ => Or.inl rfl⟩

theorem mono (h : Echoes others source w w') (hothers : ∀ loc, others loc → others' loc) :
    Echoes others' source w w' :=
  { h with bytes? := fun loc hloc => h.bytes? loc fun hother => hloc (hothers loc hother) }

/-- What happens at the places left out adds nothing. -/
theorem of_within (h : Echoes others source w w') (htrail : Trail w' events w'')
    (hwithin : ∀ event ∈ events, event.Within w'.here others) : Echoes others source w w'' := by
  obtain ⟨hsound, hspares⟩ := htrail.spares h.sound hwithin
  refine ⟨hsound, htrail.here.trans h.here, fun loc hloc => ?_⟩
  rw [hspares loc hloc]
  exact h.bytes? loc hloc

theorem of_idle (h : Echoes others source w w') (htrail : Trail w' events w'')
    (hidle : ∀ event ∈ events, event.isIdle = true) : Echoes others source w w'' := by
  have htree := htrail.tree_eq hidle
  refine ⟨⟨htree ▸ h.sound.tree, htrail.here ▸ h.sound.here⟩, htrail.here.trans h.here,
    fun loc hloc => ?_⟩
  rw [htree]
  exact h.bytes? loc hloc

/-- Where nothing has happened to the disk before. -/
theorem after_idle (htrail : Trail w events w') (hidle : ∀ event ∈ events, event.isIdle = true)
    (h : Echoes others source w' w'') : Echoes others source w w'' := by
  have htree := htrail.tree_eq hidle
  refine ⟨h.sound, h.here.trans htrail.here, fun loc hloc => ?_⟩
  rw [← htree]
  exact h.bytes? loc hloc

end Echoes

namespace Backups

variable {storage : Storage Sim} {root path : Path} {run : Text} {s : Standing Backups}

/-- The places of the manifests that a run writes. -/
def IsManifestPlace (root : Path) (run : Text) (here loc : Loc) : Prop :=
  loc = place here (lastPath root) ∨ loc = place here (runManifestPath root run)

theorem within_manifestPlaces {here : Loc} {event : Event} (h : IsManifest root run event) :
    event.Within here (IsManifestPlace root run here) :=
  (within_of_isManifest h).mono fun _ => Or.symm

/-- A snapshot makes a copy of a file and writes manifests. -/
theorem snapshot_echoes (hs : storage.OverDisk) (hw : s.world.IsSound) (hhas : Has run s.memory)
    (hpath : path.IsProper) :
    Echoes (IsManifestPlace s.memory.root run s.world.here) (place s.world.here path) s.world
      (play (snapshot storage run path) s).2.world := by
  obtain ⟨manifest, hlookup, hid⟩ := hhas
  have hcopied : ∀ target, Echoes (IsManifestPlace s.memory.root run s.world.here)
      (place s.world.here path) s.world (s.world.after (.copy path target)) := by
    intro target
    obtain ⟨hwell, ⟨e, -, hsame⟩ | ⟨-, bytes, goal, hbytes, -, -, hgoal⟩⟩ :=
      Tree.copy_bytes? hw.tree s.world.here hpath target
    · exact ⟨⟨hwell, hw.here⟩, rfl, fun loc _ => Or.inl (hsame loc)⟩
    · refine ⟨⟨hwell, hw.here⟩, rfl, fun loc _ => ?_⟩
      by_cases hloc : loc = goal
      · exact Or.inr ((hgoal loc).trans ((if_pos hloc).trans hbytes.symm))
      · exact Or.inl ((hgoal loc).trans (if_neg hloc))
  rcases snapshot_cases hs hlookup path with
    ⟨entry, -, -, hplay⟩ | ⟨target, -, -, ⟨o, w', hplay, hw'⟩ |
      ⟨-, entry, events, w₁, -, htrail, haside, hplay⟩⟩
  · rw [hplay]
    exact .refl hw
  · rw [hplay]
    rcases hw' with rfl | ⟨-, rfl⟩
    · exact .refl hw
    · exact hcopied target
  · obtain ⟨writes, hwrites, hmanifests, -⟩ :=
      persist_trail s.memory.root (listing manifest entry) w₁
    have hbefore := (hcopied target).of_idle htrail fun event he =>
      Event.isIdle_of_isAside (haside event he)
    have hrunId : (listing manifest entry).runId = run := hid
    rw [hrunId] at hmanifests
    rw [hplay]
    refine hbefore.of_within hwrites fun event he => ?_
    rw [hbefore.here]
    exact within_manifestPlaces (hmanifests event he)

end Backups

namespace Run

variable {job : Job Sim} {template : Template} {templateName : Text} {run? : Option Text}
  {path : Path} {s s' : Standing Progress}

/-- The places that a visit writes to as a run does: the page, and the manifests of the run. -/
def IsWritten (root : Path) (run? : Option Text) (here : Loc) (path : Path) (loc : Loc) : Prop :=
  loc = place here path ∨ ∃ run, run? = some run ∧ Backups.IsManifestPlace root run here loc

theorem write_echoes (hs : job.storage.OverDisk) (hw : s.world.IsSound)
    (hkeeps : Keeps run? s.memory) (hpath : path.IsProper) (text : Text) :
    Echoes (IsWritten s.memory.backups.root run? s.world.here path) (place s.world.here path)
      s.world (play (write job run? path text) s).2.world := by
  have hsnapshot : ∀ run, run? = some run →
      Echoes (IsWritten s.memory.backups.root run? s.world.here path) (place s.world.here path)
        s.world (play (Backups.snapshot job.storage run path) (toBackups s)).2.world := by
    intro run hrun
    exact (Backups.snapshot_echoes (s := toBackups s) hs hw (hkeeps run hrun) hpath).mono
      fun loc hloc => Or.inr ⟨run, hrun, hloc⟩
  rcases write_cases job run? path text s with
    ⟨run, e, b, hrun, hplay, hwrite⟩ | ⟨s₁, hs₁, hwrite⟩
  · have hechoes := hsnapshot run hrun
    rw [hplay] at hechoes
    rw [hwrite]
    exact hechoes
  · have hbefore : Echoes (IsWritten s.memory.backups.root run? s.world.here path)
        (place s.world.here path) s.world s₁.world := by
      rcases hs₁ with ⟨-, rfl⟩ | ⟨run, entry, b, hrun, hplay, rfl⟩
      · exact .refl hw
      · have hechoes := hsnapshot run hrun
        rw [hplay] at hechoes
        exact hechoes
    rw [hwrite]
    rcases hs.writeText_cases path text s₁.world with ⟨e, hrefused⟩ | hdone
    · rw [hrefused]
      exact hbefore
    · rw [hdone]
      refine hbefore.of_within (Trail.after _ _) (List.forall_mem_singleton.mpr ?_)
      rw [hbefore.here]
      exact Or.inl rfl

/-- An approved page, up to its being written or not. -/
theorem approved_echoes (hs : job.storage.OverDisk) (hw : s.world.IsSound)
    (hkeeps : Keeps run? s.memory) (hpath : path.IsProper) {current : Text} {page : Page}
    {decision : Decision} {s₁ s₂ : Standing Progress} {result : Except Failure Unit}
    (hread : held job path s = .ok current)
    (h : Changes template templateName path current page)
    (hdecide : Decides (proposal job path current (merge template page)) (opened job path s)
      decision s₁)
    (hwrite : play (write job run? path (merge template page).text) s₁ = (result, s₂)) :
    Echoes (IsWritten s.memory.backups.root run? s.world.here path) (place s.world.here path)
      s.world s₂.world := by
  obtain ⟨events, htrail, hidle, hbackups⟩ := exists_idle hs hread h hdecide
  have hw₁ : s₁.world.IsSound :=
    ⟨htrail.tree_eq hidle ▸ hw.tree, by rw [htrail.here]; exact hw.here⟩
  have hkeeps₁ : Keeps run? s₁.memory := by
    rw [Keeps, hbackups]
    exact hkeeps
  have hechoes := write_echoes hs hw₁ hkeeps₁ hpath (merge template page).text
  rw [hwrite, hbackups, htrail.here] at hechoes
  exact .after_idle htrail hidle hechoes

/-- A visit leaves every other file as it was, or a copy of a page of the template. -/
theorem Course.echoes (hs : job.storage.OverDisk) (hw : s.world.IsSound)
    (hkeeps : Keeps run? s.memory) (hpath : path.IsProper)
    {result : Except Failure (Option Outcome)}
    (h : Course job template templateName run? path s result s') :
    Echoes (IsWritten s.memory.backups.root run? s.world.here path) (place s.world.here path)
        s.world s'.world ∧
      (s'.world.tree = s.world.tree ∨ ∃ current page, held job path s = .ok current ∧
        Changes template templateName path current page) := by
  have hlog : ∀ (level : Level) (text : Text),
      ∀ event ∈ [Event.log level text], event.isIdle = true :=
    fun level text event he => List.mem_singleton.mp he ▸ rfl
  have hstill : ∀ {events : List Event} {w : World}, Trail s.world events w →
      (∀ event ∈ events, event.isIdle = true) →
      Echoes (IsWritten s.memory.backups.root run? s.world.here path) (place s.world.here path)
        s.world w ∧ w.tree = s.world.tree :=
    fun htrail hidle => ⟨(Echoes.refl hw).of_idle htrail hidle, htrail.tree_eq hidle⟩
  cases h with
  | unproposed outcome? script level text h =>
      obtain ⟨reads, hreads, hreadMem⟩ := exists_reads hs path s
      refine (hstill (hreads.trans ((Trail.after _ _).trans (Trail.scriptedBy _ _)))
        fun event he => ?_).imp_right Or.inl
      rw [List.append_nil] at he
      rcases List.mem_append.mp he with he | he
      · rw [hreadMem event he]
        rfl
      · exact hlog level text event he
  | skipped current page s₁ level text hread h hdecide =>
      obtain ⟨events, htrail, hidle, -⟩ := exists_idle hs hread h hdecide
      exact (hstill (htrail.trans (Trail.after _ _))
        (List.forall_mem_append.mpr ⟨hidle, hlog level text⟩)).imp_right Or.inl
  | cancelled current page s₁ level text hread h hdecide =>
      obtain ⟨events, htrail, hidle, -⟩ := exists_idle hs hread h hdecide
      exact (hstill (htrail.trans (Trail.after _ _))
        (List.forall_mem_append.mpr ⟨hidle, hlog level text⟩)).imp_right Or.inl
  | written current page decision s₁ s₂ level text hread h hskip hcancel hdecide hwrite =>
      have hechoes := approved_echoes hs hw hkeeps hpath hread h hdecide hwrite
      exact ⟨hechoes.of_idle (Trail.after _ _) (hlog level text), Or.inr ⟨current, page, hread, h⟩⟩
  | failed current page decision s₁ s₂ e script level text hread h hskip hcancel hdecide hwrite =>
      have hechoes := approved_echoes hs hw hkeeps hpath hread h hdecide hwrite
      exact ⟨(hechoes.of_idle (Trail.after _ _) (hlog level text)).of_idle
        (Trail.scriptedBy _ script) (by simp), Or.inr ⟨current, page, hread, h⟩⟩
  | aborted current page decision s₁ s₂ e hread h hskip hcancel hos hdecide hwrite =>
      exact ⟨approved_echoes hs hw hkeeps hpath hread h hdecide hwrite,
        Or.inr ⟨current, page, hread, h⟩⟩

/-! ## What is told of a visit -/

/-- A visit says nothing of a page just when that names another template. -/
theorem visit_ne_none_iff (hfront : job.frontEnd = Sim.scripted) {current : Text} {page : Page}
    (hread : held job path s = .ok current) (h : Page.build current path.text = .ok page) :
    (play (visit job template templateName run? path) s).1 ≠ .ok none ↔
      page.templateName = templateName := by
  have hcourse := course_visit hfront template templateName run? path s
  have hforeign : (∃ current page, held job path s = .ok current ∧
      Page.build current path.text = .ok page ∧ page.templateName ≠ templateName) ↔
        page.templateName ≠ templateName := by
    constructor
    · rintro ⟨current', page', hread', h', hname⟩
      obtain rfl := Except.ok.inj (hread.symm.trans hread')
      obtain rfl := Except.ok.inj (h.symm.trans h')
      exact hname
    · exact fun hname => ⟨current, page, hread, h, hname⟩
  cases hresult : (play (visit job template templateName run? path) s).1 with
  | error e =>
      rw [hresult] at hcourse
      refine iff_of_true (by simp) ?_
      cases hcourse with
      | aborted current' page' _ _ _ _ hread' hchanges =>
          exact not_not.mp (hforeign.not.mp (hchanges.not_foreign hread'))
  | ok outcome? =>
      rw [hresult] at hcourse
      have hnone := hcourse.eq_none_iff.trans hforeign
      rw [ne_eq, Except.ok.injEq, hnone, not_not]

/-- What is left of the files that a run is over holds texts bound to the template, but for the
manifests of the run. -/
def AllBound (templateName : Text) (run? : Option Text) (s : Standing Progress)
    (paths : List Path) : Prop :=
  ∀ path ∈ paths, ¬ IsOwnManifest s.memory.backups.root run? s.world.here path →
    ∀ bytes, s.world.tree.bytes? (place s.world.here path) = some bytes →
      Discovery.isBoundTo templateName (Text.decode bytes) = true

/-- At a call that is so of the file itself, and stays so of the others. -/
theorem Account.allBound (hs : job.storage.OverDisk) {v : Visit} {paths : List Path}
    (h : Account job template templateName run? s v) (hkeeps : Keeps run? s.memory)
    (hw : s.world.IsSound) (hpath : v.path.IsProper)
    (hplaces : place s.world.here v.path ∉ paths.map (place s.world.here))
    (hbound : AllBound templateName run? s (v.path :: paths)) :
    (¬ IsOwnManifest s.memory.backups.root run? s.world.here v.path → ∀ current,
        held job v.path v.before = .ok current →
          Discovery.isBoundTo templateName current = true) ∧
      AllBound templateName run? v.settled paths ∧ v.settled.world.IsSound ∧
        v.settled.world.here = s.world.here ∧
          v.settled.memory.backups.root = s.memory.backups.root := by
  have htree : v.before.world.tree = s.world.tree := h.polled.tree_eq (by simp [Event.isIdle])
  have hhere : v.before.world.here = s.world.here := h.polled.here
  have hbefore : v.before.world.IsSound := ⟨htree ▸ hw.tree, by rw [hhere]; exact hw.here⟩
  have hheld : ∀ current, held job v.path v.before = .ok current → ∃ bytes,
      s.world.tree.bytes? (place s.world.here v.path) = some bytes ∧
        current = Text.decode bytes := by
    intro current hread
    obtain ⟨bytes, hdisk, hcurrent⟩ := exists_read hs hread
    rw [htree, hhere] at hdisk
    exact ⟨bytes, Tree.bytes?_eq_some.mpr (Tree.read_eq_ok.mp hdisk).2, hcurrent⟩
  obtain ⟨hechoes, hchanges⟩ := h.course.echoes hs hbefore (h.memory ▸ hkeeps) hpath
  rw [h.memory, hhere] at hechoes
  have hroot : v.settled.memory.backups.root = s.memory.backups.root := h.root
  have hsettled : v.settled.world.here = s.world.here := hechoes.here.trans hhere
  refine ⟨fun hown current hread => ?_, fun path hmem hown bytes hbytes => ?_, hechoes.sound,
    hsettled, hroot⟩
  · obtain ⟨bytes, hbytes, rfl⟩ := hheld current hread
    exact hbound v.path List.mem_cons_self hown bytes hbytes
  · rw [hsettled] at hown hbytes
    rw [hroot] at hown
    have hold := hbound path (List.mem_cons_of_mem _ hmem) hown
    have hother : ¬ IsWritten s.memory.backups.root run? s.world.here v.path
        (place s.world.here path) := by
      rintro (heq | ⟨run, hrun, hmanifest⟩)
      · exact hplaces (heq ▸ List.mem_map_of_mem hmem)
      · exact hown ⟨run, hrun, hmanifest⟩
    rcases hchanges with hsame | ⟨current, page, hread, hpage⟩
    · refine hold bytes ?_
      rw [← htree, ← hsame]
      exact hbytes
    · rcases hechoes.bytes? _ hother with hkept | hcopied
      · rw [htree] at hkept
        exact hold bytes (hkept.symm.trans hbytes)
      · obtain ⟨bytes', hbytes', rfl⟩ := hheld current hread
        rw [htree, hbytes'] at hcopied
        obtain rfl := Option.some.inj (hcopied.symm.trans hbytes)
        exact (Discovery.isBoundTo_of_build hpage.build).mpr hpage.name

/-- So each holds such a text when its turn comes. -/
theorem Tour.bound (hfront : job.frontEnd = Sim.scripted) (hs : job.storage.OverDisk)
    {paths : List Path} {visits : List Visit} {result : Except Failure Unit}
    (h : Tour job template templateName run? s paths visits result s')
    (hkeeps : Keeps run? s.memory) (hw : s.world.IsSound) (hpaths : ∀ path ∈ paths, path.IsProper)
    (hplaces : (paths.map (place s.world.here)).Nodup)
    (hbound : AllBound templateName run? s paths) :
    ∀ v ∈ visits, ¬ IsOwnManifest s.memory.backups.root run? s.world.here v.path →
      ∀ current, held job v.path v.before = .ok current →
        Discovery.isBoundTo templateName current = true := by
  have hgoal : Keeps run? s.memory → s.world.IsSound → (∀ path ∈ paths, path.IsProper) →
      (paths.map (place s.world.here)).Nodup → AllBound templateName run? s paths →
      ∀ v ∈ visits, ¬ IsOwnManifest s.memory.backups.root run? s.world.here v.path →
        ∀ current, held job v.path v.before = .ok current →
          Discovery.isBoundTo templateName current = true := by
    refine Tour.rec_account hfront hs ?_ ?_ ?_ ?_ ?_ h hkeeps
    · simp
    · simp
    · simp
    · intro paths s v haccount _ hkeeps hw hpaths hplaces hbound
      obtain ⟨hfirst, hrest⟩ := List.nodup_cons.mp hplaces
      exact List.forall_mem_singleton.mpr (haccount.allBound hs hkeeps hw
        (hpaths _ List.mem_cons_self) hfirst hbound).1
    · intro paths s v visits result s' haccount _ ih hkeeps hw hpaths hplaces hbound
      obtain ⟨hfirst, hrest⟩ := List.nodup_cons.mp hplaces
      obtain ⟨hown, hlater, hsound, hhere, hroot⟩ := haccount.allBound hs hkeeps hw
        (hpaths _ List.mem_cons_self) hfirst hbound
      have ih := ih haccount.keeps hsound
        (fun path hmem => hpaths path (List.mem_cons_of_mem _ hmem)) (by rw [hhere]; exact hrest)
        hlater
      rw [hhere, hroot] at ih
      exact List.forall_mem_cons.mpr ⟨hown, ih⟩
  exact hgoal hkeeps hw hpaths hplaces hbound

end Run

/-! ## What is found -/

namespace Discovery

variable {s : Settings} {storage : Storage Sim} {w : World}

/-- Of the first file in a list: it is passed over, or it is there and bound to the template. -/
theorem keepBound_cases (hs : storage.OverDisk) (name : Text) (first : Path) (paths : List Path)
    (w : World) : ∃ w', w'.tree = w.tree ∧ w'.here = w.here ∧
      (((keepBound storage name (first :: paths) : Sim (List Path)).run w).1 =
          ((keepBound storage name paths : Sim (List Path)).run w').1 ∨
        ((keepBound storage name (first :: paths) : Sim (List Path)).run w).1 =
            first :: ((keepBound storage name paths : Sim (List Path)).run w').1 ∧
          ∃ bytes, w.tree.bytes? (Tree.place w.here first) = some bytes ∧
            isBoundTo name (Text.decode bytes) = true) := by
  rcases hs.readText_cases first w with ⟨e, hread⟩ | hread
  · obtain ⟨w', htree, hhere, hrun⟩ := run_keepBound_cons hread name paths
    exact ⟨w', htree, hhere, Or.inl hrun⟩
  · obtain ⟨w', htree, hhere, hrun⟩ := run_keepBound_cons hread name paths
    refine ⟨w', htree, hhere, ?_⟩
    rw [hrun]
    cases hdisk : w.tree.read w.here first with
    | error e => exact Or.inl rfl
    | ok bytes =>
        have hbytes := Tree.bytes?_eq_some.mpr (Tree.read_eq_ok.mp hdisk).2
        by_cases hbound : isBoundTo name (Text.decode bytes) = true
        · exact Or.inr ⟨if_pos hbound, bytes, hbytes, hbound⟩
        · exact Or.inl (if_neg hbound)

/-- Of the files in a list some are kept, and each of them is there and bound to the template. -/
theorem keepBound_sublist (hs : storage.OverDisk) (name : Text) (paths : List Path) (w : World) :
    ((keepBound storage name paths : Sim (List Path)).run w).1.Sublist paths ∧
      ∀ path ∈ ((keepBound storage name paths : Sim (List Path)).run w).1, ∃ bytes,
        w.tree.bytes? (Tree.place w.here path) = some bytes ∧
          isBoundTo name (Text.decode bytes) = true := by
  induction paths generalizing w with
  | nil => exact ⟨List.Sublist.refl _, fun path hpath => by cases hpath⟩
  | cons first paths ih =>
      obtain ⟨w', htree, hhere, hrun⟩ := keepBound_cases hs name first paths w
      have hrest := ih w'
      rw [htree, hhere] at hrest
      rcases hrun with hrun | ⟨hrun, hbound⟩
      · rw [hrun]
        exact ⟨hrest.1.cons first, hrest.2⟩
      · rw [hrun]
        exact ⟨hrest.1.cons_cons first, List.forall_mem_cons.mpr ⟨hbound, hrest.2⟩⟩

/-- What is found is proper paths to different files, which are bound to the template. -/
theorem instances_spec (hs : storage.OverDisk) (hlisting : w.tree.IsListing)
    (hnames : ∀ entry ∈ w.tree.files, ∀ part ∈ entry.1, Path.IsName part)
    (hroot : s.siteRoot.IsProper) (template : Path) :
    (∀ path ∈ ((instances s storage template : Sim (List Path)).run w).1, path.IsProper) ∧
      (((instances s storage template : Sim (List Path)).run w).1.map (Tree.place w.here)).Nodup ∧
      ∀ path ∈ ((instances s storage template : Sim (List Path)).run w).1, ∃ bytes,
        w.tree.bytes? (Tree.place w.here path) = some bytes ∧
          isBoundTo template.name (Text.decode bytes) = true := by
  have hrun : ((instances s storage template : Sim (List Path)).run w).1 =
      ((keepBound storage template.name ((candidates s : Sim (List Path)).run w).1 :
        Sim (List Path)).run w).1 := rfl
  obtain ⟨hsublist, hbound⟩ :=
    keepBound_sublist hs template.name ((candidates s : Sim (List Path)).run w).1 w
  rw [← hrun] at hsublist hbound
  have hparts : ∀ path ∈ ((candidates s : Sim (List Path)).run w).1, ∃ file,
      path = place s file ∧ ∀ part ∈ file, Path.IsName part := by
    intro path hpath
    obtain ⟨-, file, rfl, ⟨bytes, hlisted⟩, -, -⟩ := mem_candidates_iff.mp hpath
    exact ⟨file, rfl, fun part hpart => hnames _ hlisted part (List.mem_append_right _ hpart)⟩
  have hplaces : (((candidates s : Sim (List Path)).run w).1.map (Tree.place w.here)).Nodup := by
    refine (nodup_candidates hlisting).map_on fun path hpath other hother heq => ?_
    obtain ⟨file, rfl, hfile⟩ := hparts path hpath
    obtain ⟨file', rfl, hfile'⟩ := hparts other hother
    rw [place, place, Tree.place_append w.here s.siteRoot hfile,
      Tree.place_append w.here s.siteRoot hfile'] at heq
    rw [List.append_cancel_left heq]
  refine ⟨fun path hpath => ?_, hplaces.sublist (hsublist.map _), hbound⟩
  obtain ⟨file, rfl, hfile⟩ := hparts path (hsublist.subset hpath)
  exact List.forall_mem_append.mpr ⟨hroot, fun part hpart => (hfile part hpart).isPart⟩

end Discovery

/-! ## What is told -/

namespace Run

variable {settings : Settings} {storage : Storage Sim} {templatePath : Path} {found : List Path}
  {state final : RunState} {w w₁ w₂ : World} {template : Template}
  {result : Except Failure RunSummary}

/-- Every file found has its answer, in order, and the summary tells them: nothing is left out, but
perhaps what the run has made its own manifest. -/
structure Tells (settings : Settings) (w : World) (found : List Path)
    (answers : List (Path × Option Outcome)) (summary : RunSummary) : Prop where
  found : answers.map Prod.fst = found
  outcomes : summary.outcomes = answers.filterMap Prod.snd
  path : ∀ answer ∈ answers, ∀ outcome, answer.2 = some outcome →
    outcome.path = settings.display answer.1
  silent : ∀ answer ∈ answers, answer.2 = none →
    IsOwnManifest settings.backupRoot (nextRun? settings w) w.here answer.1

end Run

/-! ## Pages found on three sites

On the first all pages found are told. On the others the run cannot write its manifest, or writes it
over a page that was found. -/

namespace Run.FoundPages

def template : Text := Text.concat ["<html><body><!-- TemplateBeginEditable name=\"r\" -->new",
  "<!-- TemplateEndEditable --></body></html>"]

/-- A page of the template that merging changes. -/
def page : Text := Text.concat ["<html><!-- InstanceBegin template=\"/t.dwt\" -->",
  "<!-- InstanceBeginEditable name=\"r\" -->own<!-- InstanceEndEditable --></html>"]

/-- A text that is bound to the template, but is no page. -/
def malformed : Text :=
  "<html><!-- InstanceBegin template=\"/t.dwt\" --><!-- InstanceEndEditable --></html>"

def file (name : Text) : Path := ⟨.slash, ["s", name]⟩

def last : Path := ⟨.slash, ["s", "b", "last_backup.json"]⟩

/-- A name that opens a binding where a manifest goes on behind it. -/
def opening : Text := "x--><!-- InstanceBegin template="

/-- The folder of backups is named so that it is searched. -/
def settings : Settings :=
  { Settings.default ⟨.slash, ["s"]⟩ with backupDirName := "b", includePatterns := ["**/*"] }

def job : Job Sim := ⟨settings, Sim.scripted, Storage.disk⟩

def site (nodes : List (Loc × Node)) : World :=
  World.make ⟨(["s"], .dir) :: (["s", "t.dwt"], .file template.encode) :: nodes⟩ [] "1"

def world : World :=
  site [(["s", "b.html"], .file malformed.encode), (["s", "a.html"], .file page.encode)]

def blocked : World :=
  site [(["s", "a.html"], .file page.encode), (["s", "b"], .dir),
    (["s", "b", "last_backup.json"], .dir)]

def overwritten : World :=
  site [(["s", opening], .file page.encode), (["s", "b"], .dir),
    (["s", "b", "last_backup.json"], .file page.encode)]

def pages (w : World) : List Path :=
  ((Discovery.instances settings job.storage (file "t.dwt") : Sim (List Path)).run w).1

def finished (found : List Path) (w : World) : (Except Failure RunSummary × RunState) × World :=
  (run job (file "t.dwt") found ⟨.autoApplyAll, false⟩).run w

/-- There is one outcome for each file found, in order. -/
def tellsAll (found : List Path) : Except Failure RunSummary → Bool
  | .ok summary => summary.outcomes.map (·.path) = found.map settings.display
  | .error _ => false

theorem pages_eq {w : World} (paths : List Path)
    (h : ((Discovery.candidates settings : Sim (List Path)).run w).1 = paths) : pages w =
      ((Discovery.keepBound job.storage "t.dwt" paths : Sim (List Path)).run w).1 := by
  rw [← h]
  rfl

theorem pages_world : pages world = [file "a.html", file "b.html"] := by
  rw [pages_eq [file "a.html", file "b.html", file "t.dwt"]]
  · rw [world, site, template, malformed, page]
    repeat rw [Text.ofString_ofList]
    decide +kernel
  · rw [settings, Settings.default, world, site, template, malformed, page]
    repeat rw [Text.ofString_ofList]
    cbv

theorem pages_blocked : pages blocked = [file "a.html"] := by
  rw [pages_eq [file "a.html", file "t.dwt"]]
  · rw [blocked, site, template, page]
    repeat rw [Text.ofString_ofList]
    decide +kernel
  · rw [settings, Settings.default, blocked, site, template, page]
    repeat rw [Text.ofString_ofList]
    cbv

theorem pages_overwritten : pages overwritten = [file opening, last] := by
  rw [pages_eq [file "t.dwt", file opening, last]]
  · rw [overwritten, site, template, page]
    repeat rw [Text.ofString_ofList]
    decide +kernel
  · rw [settings, Settings.default, overwritten, site, template, page]
    repeat rw [Text.ofString_ofList]
    cbv

theorem exists_template {w : World}
    (h : w.tree.read w.here (file "t.dwt") = .ok template.encode) :
    ∃ read, ((loadTemplate job.storage (file "t.dwt")).run.run w).1 = .ok read := by
  have hbuild : (Template.build (Text.decode template.encode) (file "t.dwt").text).isOk = true := by
    rw [template]
    repeat rw [Text.ofString_ofList]
    decide +kernel
  cases hread : Template.build (Text.decode template.encode) (file "t.dwt").text with
  | error fault =>
      rw [hread] at hbuild
      cases hbuild
  | ok read => exact ⟨read, (loadTemplate_eq_ok rfl).mpr ⟨_, h, hread⟩⟩

end Run.FoundPages

end Stencil

import Stencil.Proofs.Backup.Frame
import Stencil.Proofs.Run.Tour

/-!
# What a visit changes

A visit changes nothing outside the backup root but a page that ends applied, and it leaves a page that
does not what it was (`Course.confined`).
-/

namespace Stencil

open Stencil.Path (IsName)
open Stencil.Tree (Retains Spares place)

namespace Run

variable {job : Job Sim} {template : Template} {templateName : Text} {run? : Option Text}
  {path : Path} {s s' : Standing Progress} {v : Visit}

/-! ## Writing a page -/

/-- Whatever run keeps backups, it is named like one and is careful. -/
def Cautious (run? : Option Text) (s : Standing Progress) : Prop :=
  ∀ run, run? = some run →
    IsName run ∧ run ≠ Backups.lastFileName ∧ Backups.Careful IsName run (toBackups s)

/-- The page has been backed up, if backups are kept. -/
structure BackedUp (job : Job Sim) (run? : Option Text) (path : Path) (s s₁ : Standing Progress) :
    Prop where
  plain : run? = none → s₁ = s
  backed : ∀ run, run? = some run → ∃ entry,
    play (backup (Backups.snapshot job.storage run path)) s = (.ok entry, s₁)

/-- The file that a path leads to is one that the run itself keeps its manifest in. -/
def IsOwnManifest (root : Path) (run? : Option Text) (here : Loc) (path : Path) : Prop :=
  ∃ run, run? = some run ∧ (place here path = place here (Backups.lastPath root) ∨
    place here path = place here (Backups.runManifestPath root run))

/-- A location in the backup root of a run that keeps backups. -/
def IsBackup (run? : Option Text) (s : Standing Progress) (loc : Loc) : Prop :=
  run?.isSome = true ∧ place s.world.here s.memory.backups.root <+: loc

/-- Between two standings of a run, nothing outside the backup root has changed but perhaps at the
locations of a kind. -/
structure Leads (P : Loc → Prop) (run? : Option Text) (s s' : Standing Progress) : Prop where
  here : s'.world.here = s.world.here
  tag : s'.world.tag = s.world.tag
  root : s'.memory.backups.root = s.memory.backups.root
  sound : s'.world.IsSound
  cautious : Cautious run? s'
  retains : Retains (IsBackup run? s) P s.world.tree s'.world.tree

namespace Leads

variable {P Q : Loc → Prop} {s'' : Standing Progress}

theorem isBackup_eq (h : Leads P run? s s') : IsBackup run? s' = IsBackup run? s := by
  funext loc
  rw [IsBackup, IsBackup, h.here, h.root]

theorem trans (h : Leads P run? s s') (h' : Leads P run? s' s'') : Leads P run? s s'' where
  here := h'.here.trans h.here
  tag := h'.tag.trans h.tag
  root := h'.root.trans h.root
  sound := h'.sound
  cautious := h'.cautious
  retains := by
    have hretains := h'.retains
    rw [h.isBackup_eq] at hretains
    exact h.retains.trans hretains

theorem mono (h : Leads P run? s s') (hPQ : ∀ loc, P loc → Q loc) : Leads Q run? s s' :=
  { h with retains := h.retains.mono (fun _ => id) hPQ }

theorem spares (h : Leads P run? s s') :
    Spares (fun loc => place s.world.here s.memory.backups.root <+: loc ∨ P loc)
      s.world.tree s'.world.tree :=
  h.retains.spares.mono fun _ => Or.imp_left And.right

/-- Nothing has happened to the disk. -/
theorem of_idle (hw : s.world.IsSound) (hcautious : Cautious run? s) {events : List Event}
    (htrail : Trail s.world events s'.world) (hidle : ∀ event ∈ events, event.isIdle = true)
    (hbackups : s'.memory.backups = s.memory.backups) : Leads P run? s s' where
  here := htrail.here
  tag := htrail.tag
  root := by rw [hbackups]
  sound := ⟨htrail.tree_eq hidle ▸ hw.tree, by rw [htrail.here]; exact hw.here⟩
  cautious run hrun := by
    obtain ⟨hname, hlast, hcareful⟩ := hcautious run hrun
    refine ⟨hname, hlast, ?_⟩
    rw [toBackups, hbackups]
    refine hcareful.of_bytes? _ htrail.here ?_
    rw [htrail.tree_eq hidle]
    rfl
  retains := by
    rw [htrail.tree_eq hidle]
    exact .refl _

end Leads

theorem leads_snapshot {run : Text} {result : Except Failure BackupEntry} {b : Standing Backups}
    (hs : job.storage.OverDisk) (hw : s.world.IsSound) (hcautious : Cautious run? s)
    (hrun : run? = some run) (hpath : path.IsProper)
    (h : play (Backups.snapshot job.storage run path) (toBackups s) = (result, b)) :
    Leads (fun _ => False) run? s (withBackups s b) ∧
      (∀ entry, result = .ok entry → b.memory.replaced.lookup run ≠ none) ∧
      (¬ IsOwnManifest s.memory.backups.root run? s.world.here path →
        b.world.tree.bytes? (place s.world.here path) =
          s.world.tree.bytes? (place s.world.here path)) := by
  obtain ⟨hname, hlast, hcareful⟩ := hcautious run hrun
  obtain ⟨events, htrail, hwithin, hcareful', hroot, hnoted, hown⟩ :=
    Backups.snapshot_frame (s := toBackups s) hs hw hname hlast hpath hcareful
  rw [h] at htrail hcareful' hroot hnoted hown
  have hbackup : ∀ loc, place s.world.here s.memory.backups.root <+: loc → IsBackup run? s loc :=
    fun loc hloc => ⟨hrun ▸ rfl, hloc⟩
  refine ⟨⟨htrail.here, htrail.tag, hroot, (htrail.spares hw hwithin).1, fun run' hrun' => ?_,
    (htrail.retains hw hwithin).mono hbackup fun _ => id⟩, hnoted,
    fun hother => hown (fun heq => ?_) fun heq => ?_⟩
  · obtain rfl := Option.some.inj (hrun.symm.trans hrun')
    exact ⟨hname, hlast, hcareful'⟩
  · exact hother ⟨run, hrun, Or.inl heq⟩
  · exact hother ⟨run, hrun, Or.inr heq⟩

/-- Writing a page over a file, behind its snapshot. -/
theorem leads_writeText (hs : job.storage.OverDisk) {s₁ : Standing Progress}
    (hw : s₁.world.IsSound) (hcautious : Cautious run? s₁)
    (hnoted : ∀ run, run? = some run → s₁.memory.backups.replaced.lookup run ≠ none)
    (path : Path) (text : Text) {result : Except OsError Unit} {w' : World}
    (h : (job.storage.writeText path text).run s₁.world = (result, w')) :
    ((∃ e, result = .error e) ∧ Leads (fun _ => False) run? s₁ ⟨s₁.memory, w'⟩ ∧
        ∀ loc, w'.tree.bytes? loc = s₁.world.tree.bytes? loc) ∨
      result = .ok () ∧ Leads (· = place s₁.world.here path) run? s₁ ⟨s₁.memory, w'⟩ ∧
        w'.tree = (s₁.world.tree.replace s₁.world.here s₁.world.tag path text.encode).1 ∧
        w'.tree.bytes? (place s₁.world.here path) = some text.encode := by
  rcases hs.writeText_cases path text s₁.world with ⟨e, hwrite⟩ | hwrite
  · obtain ⟨rfl, rfl⟩ := Prod.mk.inj (hwrite.symm.trans h)
    exact Or.inl ⟨⟨e, rfl⟩, .of_idle hw hcautious (Trail.refl _) (by simp) rfl, fun _ => rfl⟩
  · obtain ⟨rfl, rfl⟩ := Prod.mk.inj (hwrite.symm.trans h)
    have hcautious' : Cautious run? ⟨s₁.memory, s₁.world.after (.replace path text.encode)⟩ := by
      intro run hrun
      obtain ⟨hname, hlast, hcareful⟩ := hcautious run hrun
      exact ⟨hname, hlast, hcareful.has, fun hnone => absurd hnone (hnoted run hrun),
        hcareful.stale⟩
    obtain ⟨hchanges, -⟩ :=
      Tree.replace_changes hw.tree s₁.world.here s₁.world.tag path text.encode
    obtain ⟨hwell, ⟨e, hfails, hsame⟩ | ⟨hdone, hbytes⟩⟩ :=
      Tree.replace_bytes? hw.tree s₁.world.here s₁.world.tag path text.encode
    · exact Or.inl ⟨⟨e, hfails⟩, ⟨rfl, rfl, rfl, ⟨hwell, hw.here⟩, hcautious', fun loc _ => hsame loc,
        fun loc _ => hchanges.dirs loc⟩, hsame⟩
    · refine Or.inr ⟨hdone, ⟨rfl, rfl, rfl, ⟨hwell, hw.here⟩, hcautious', fun loc hloc => ?_,
        fun loc _ => hchanges.dirs loc⟩, rfl, ?_⟩
      · exact (hbytes loc).trans (if_neg (not_or.mp hloc).2)
      · exact (hbytes _).trans (if_pos rfl)

/-- Writing a page fails and changes nothing outside the backup root, or the page holds the text. -/
theorem leads_write (hs : job.storage.OverDisk) (hw : s.world.IsSound) (hcautious : Cautious run? s)
    (hpath : path.IsProper) {text : Text} {result : Except Failure Unit}
    (h : play (write job run? path text) s = (result, s')) :
    ((∃ e, result = .error e) ∧ Leads (fun _ => False) run? s s' ∧
        (¬ IsOwnManifest s.memory.backups.root run? s.world.here path →
          s'.world.tree.bytes? (place s.world.here path) =
            s.world.tree.bytes? (place s.world.here path))) ∨
      result = .ok () ∧ Leads (· = place s.world.here path) run? s s' ∧
        s'.world.tree.bytes? (place s.world.here path) = some text.encode ∧
        ∃ s₁, BackedUp job run? path s s₁ ∧ s'.memory = s₁.memory ∧ s'.world.tree =
          (s₁.world.tree.replace s.world.here s.world.tag path text.encode).1 := by
  rcases write_cases job run? path text s with
    ⟨run, e, b, hrun, hsnapshot, hplay⟩ | ⟨s₁, hbacked, hplay⟩
  · obtain ⟨rfl, rfl⟩ := Prod.mk.inj (hplay.symm.trans h)
    obtain ⟨hleads, -, hown⟩ := leads_snapshot hs hw hcautious hrun hpath hsnapshot
    exact Or.inl ⟨⟨e, rfl⟩, hleads, hown⟩
  · have hbefore : Leads (fun _ => False) run? s s₁ ∧ BackedUp job run? path s s₁ ∧
        (∀ run, run? = some run → s₁.memory.backups.replaced.lookup run ≠ none) ∧
        (¬ IsOwnManifest s.memory.backups.root run? s.world.here path →
          s₁.world.tree.bytes? (place s.world.here path) =
            s.world.tree.bytes? (place s.world.here path)) := by
      rcases hbacked with ⟨rfl, rfl⟩ | ⟨run, entry, b, hrun, hsnapshot, rfl⟩
      · exact ⟨.of_idle hw hcautious (Trail.refl _) (by simp) rfl,
          ⟨fun _ => rfl, fun run hrun => by cases hrun⟩, (fun run hrun => by cases hrun),
          fun _ => rfl⟩
      · obtain ⟨hleads, hnoted, hown⟩ := leads_snapshot hs hw hcautious hrun hpath hsnapshot
        refine ⟨hleads, ⟨fun hnone => ?_, fun run' hrun' => ⟨entry, ?_⟩⟩, fun run' hrun' => ?_, hown⟩
        · cases hnone.symm.trans hrun
        · obtain rfl := Option.some.inj (hrun.symm.trans hrun')
          rw [play_backup, hsnapshot]
        · obtain rfl := Option.some.inj (hrun.symm.trans hrun')
          exact hnoted entry rfl
    obtain ⟨hleads, hbackedUp, hnoted, hown⟩ := hbefore
    rcases hwrite : (job.storage.writeText path text).run s₁.world with ⟨written, w'⟩
    rw [hwrite] at hplay
    obtain ⟨rfl, rfl⟩ := Prod.mk.inj (hplay.symm.trans h)
    rcases leads_writeText hs hleads.sound hleads.cautious hnoted path text hwrite with
      ⟨⟨e, rfl⟩, hleads', hsame⟩ | ⟨rfl, hleads', htree, hbytes⟩
    · exact Or.inl ⟨⟨_, rfl⟩, hleads.trans hleads', fun hother => (hsame _).trans (hown hother)⟩
    · rw [hleads.here] at hleads' htree hbytes
      rw [hleads.tag] at htree
      exact Or.inr ⟨rfl, (hleads.mono fun loc h => h.elim).trans hleads', hbytes, s₁, hbackedUp, rfl,
        htree⟩

/-! ## One visit -/

/-- The file was written at the visit. -/
def Visit.IsApplied (v : Visit) : Prop :=
  ∃ outcome, v.result = .ok (some outcome) ∧ outcome.status = .applied

/-- The visit replaced these bytes, which held this page, by the page merged with the template. If
backups are kept it made a snapshot before, from the first standing to the second. -/
structure Replaced (job : Job Sim) (template : Template) (templateName : Text) (run? : Option Text)
    (v : Visit) (bytes : Bytes) (page : Page) (s₀ s₁ : Standing Progress) : Prop where
  held : v.before.world.tree.bytes? (place v.before.world.here v.path) = some bytes
  build : Page.build (Text.decode bytes) v.path.text = .ok page
  name : page.templateName = templateName
  tree : s₀.world.tree = v.before.world.tree
  backups : s₀.memory.backups = v.before.memory.backups
  backedUp : BackedUp job run? v.path s₀ s₁
  kept : v.after.memory.backups = s₁.memory.backups
  written : v.after.world.tree = (s₁.world.tree.replace v.before.world.here v.before.world.tag v.path
    (merge template page).text.encode).1
  holds : v.after.world.tree.bytes? (place v.before.world.here v.path) =
    some (merge template page).text.encode

/-- What a visit may do to the disk. -/
structure Confined (job : Job Sim) (template : Template) (templateName : Text) (run? : Option Text)
    (v : Visit) : Prop where
  /-- A page that ends applied is replaced by itself merged, behind a snapshot. -/
  applied : v.IsApplied → ∃ bytes page s₀ s₁, Replaced job template templateName run? v bytes page s₀ s₁
  /-- Nothing else outside the backup root is changed. -/
  outside : ∀ loc, ¬ place v.before.world.here v.before.memory.backups.root <+: loc →
    v.after.world.tree.bytes? loc ≠ v.before.world.tree.bytes? loc →
    v.IsApplied ∧ loc = place v.before.world.here v.path
  /-- A file that does not end applied is what it was, unless the run keeps its manifest there. -/
  own : ¬ v.IsApplied →
    ¬ IsOwnManifest v.before.memory.backups.root run? v.before.world.here v.path →
    v.after.world.tree.bytes? (place v.before.world.here v.path) =
      v.before.world.tree.bytes? (place v.before.world.here v.path)
  /-- The whole disk is what it was unless a page was written or could not be. -/
  still : ∀ outcome?, v.result = .ok outcome? → (∀ outcome, outcome? = some outcome →
    outcome.status ≠ .applied ∧ outcome.status ≠ .ioFailed) →
    v.after.world.tree = v.before.world.tree

/-- Where a run stands once there is a decision on a change, nothing has happened to the disk. -/
theorem exists_idle (hs : job.storage.OverDisk) {current : Text} {page : Page} {decision : Decision}
    {s₁ : Standing Progress} (hread : held job path s = .ok current)
    (h : Changes template templateName path current page)
    (hdecide : Decides (proposal job path current (merge template page)) (opened job path s)
      decision s₁) :
    ∃ events, Trail s.world events s₁.world ∧ (∀ event ∈ events, event.isIdle = true) ∧
      s₁.memory.backups = s.memory.backups := by
  obtain ⟨reads, hreads, hread_mem⟩ := exists_reads hs path s
  obtain ⟨asked, htrail, hasked, hbackups, -⟩ := exists_asked hread h hdecide
  refine ⟨_, hreads.trans htrail, fun event he => ?_, hbackups⟩
  rcases List.mem_append.mp he with he | he
  · rw [hread_mem event he]
    rfl
  · generalize s₁.memory.state = state at hasked
    cases hasked with
    | nobody => cases he
    | user => exact List.mem_singleton.mp he ▸ rfl

/-- What is read is what the file holds. -/
theorem exists_read (hs : job.storage.OverDisk) {current : Text}
    (hread : held job path s = .ok current) :
    ∃ bytes, s.world.tree.read s.world.here path = .ok bytes ∧ current = Text.decode bytes := by
  rw [held] at hread
  rcases hs.readText_cases path (announced job path s) with ⟨e, hrefused⟩ | hdone
  · rw [hrefused] at hread
    cases hread
  · rw [hdone] at hread
    have hbytes : (s.world.tree.read s.world.here path).map Text.decode = .ok current := hread
    cases hdisk : s.world.tree.read s.world.here path with
    | error e =>
        rw [hdisk] at hbytes
        cases hbytes
    | ok bytes =>
        rw [hdisk] at hbytes
        exact ⟨bytes, rfl, (Except.ok.inj hbytes).symm⟩

theorem Leads.idle {P : Loc → Prop} (h : Leads P run? s s') {events : List Event} {w : World}
    (htrail : Trail s'.world events w) (hidle : ∀ event ∈ events, event.isIdle = true) :
    Leads P run? s ⟨s'.memory, w⟩ :=
  h.trans (.of_idle h.sound h.cautious htrail hidle rfl)

/-- A visit at which nothing happens to the disk. -/
theorem confined_of_idle (hw : v.before.world.IsSound) (hcautious : Cautious run? v.before)
    (hnot : ¬ v.IsApplied) {events : List Event} (htrail : Trail v.before.world events v.after.world)
    (hidle : ∀ event ∈ events, event.isIdle = true)
    (hbackups : v.after.memory.backups = v.before.memory.backups) :
    Confined job template templateName run? v ∧
      Leads (fun loc => v.IsApplied ∧ loc = place v.before.world.here v.path) run? v.before
        v.after := by
  have htree := htrail.tree_eq hidle
  refine ⟨⟨fun happlied => absurd happlied hnot, fun loc _ hne => ?_, fun _ _ => by rw [htree],
    fun _ _ _ => htree⟩, .of_idle hw hcautious htrail hidle hbackups⟩
  rw [htree] at hne
  exact absurd rfl hne

/-- A visit at which a page could not be written. -/
theorem confined_of_failed (hleads : Leads (fun _ => False) run? v.before v.after)
    (hfailed : ∀ outcome?, v.result = .ok outcome? →
      ∃ outcome, outcome? = some outcome ∧ outcome.status = .ioFailed)
    (hown : ¬ IsOwnManifest v.before.memory.backups.root run? v.before.world.here v.path →
      v.after.world.tree.bytes? (place v.before.world.here v.path) =
        v.before.world.tree.bytes? (place v.before.world.here v.path)) :
    Confined job template templateName run? v ∧
      Leads (fun loc => v.IsApplied ∧ loc = place v.before.world.here v.path) run? v.before
        v.after := by
  refine ⟨⟨?_, fun loc hloc hne => ?_, fun _ => hown, fun outcome? hresult hstatus => ?_⟩,
    hleads.mono fun loc h => h.elim⟩
  · rintro ⟨outcome, hresult, hstatus⟩
    obtain ⟨outcome', heq, hstatus'⟩ := hfailed _ hresult
    obtain rfl := Option.some.inj heq
    rw [hstatus] at hstatus'
    cases hstatus'
  · exact absurd (hleads.spares loc fun h => h.elim hloc id) hne
  · obtain ⟨outcome, heq, hfailed⟩ := hfailed outcome? hresult
    exact absurd hfailed (hstatus outcome heq).2

theorem Unproposed.status_ne {read : Except OsError Text} {outcome? : Option Outcome}
    (h : Unproposed job template templateName path read outcome?) :
    ∀ outcome, outcome? = some outcome → outcome.status ≠ .applied := by
  intro outcome heq
  cases h <;> cases heq <;> exact fun hstatus => by cases hstatus

/-- An approved page, up to its being written: it is written, or nothing outside the backup root has
changed. -/
theorem leads_approved (hs : job.storage.OverDisk) (hw : s.world.IsSound)
    (hcautious : Cautious run? s) (hpath : path.IsProper) {current : Text} {page : Page}
    {decision : Decision} {s₁ s₂ : Standing Progress} {result : Except Failure Unit}
    (hread : held job path s = .ok current)
    (h : Changes template templateName path current page)
    (hdecide : Decides (proposal job path current (merge template page)) (opened job path s)
      decision s₁)
    (hwrite : play (write job run? path (merge template page).text) s₁ = (result, s₂)) :
    ((∃ e, result = .error e) ∧ Leads (fun _ => False) run? s s₂ ∧
        (¬ IsOwnManifest s.memory.backups.root run? s.world.here path →
          s₂.world.tree.bytes? (place s.world.here path) =
            s.world.tree.bytes? (place s.world.here path))) ∨
      result = .ok () ∧ Leads (· = place s.world.here path) run? s s₂ ∧
        s₁.world.tree = s.world.tree ∧ s₁.memory.backups = s.memory.backups ∧
        s₂.world.tree.bytes? (place s.world.here path) = some (merge template page).text.encode ∧
        ∃ s', BackedUp job run? path s₁ s' ∧ s₂.memory = s'.memory ∧ s₂.world.tree =
          (s'.world.tree.replace s.world.here s.world.tag path
            (merge template page).text.encode).1 := by
  obtain ⟨events, htrail, hidle, hbackups⟩ := exists_idle hs hread h hdecide
  have htree := htrail.tree_eq hidle
  have hleads : ∀ P : Loc → Prop, Leads P run? s s₁ :=
    fun P => .of_idle hw hcautious htrail hidle hbackups
  have hwrites := leads_write hs (hleads fun _ => False).sound (hleads fun _ => False).cautious hpath
    hwrite
  rw [htrail.here, htrail.tag, htree, hbackups] at hwrites
  rcases hwrites with ⟨hfails, hleads', hown⟩ | ⟨hdone, hleads', hbytes, hbacked⟩
  · exact Or.inl ⟨hfails, (hleads _).trans hleads', hown⟩
  · exact Or.inr ⟨hdone, (hleads _).trans hleads', htree, hbackups, hbytes, hbacked⟩

/-- A visit changes nothing outside the backup root but the page that ends applied. -/
theorem Course.confined (hs : job.storage.OverDisk) {result : Except Failure (Option Outcome)}
    (hw : s.world.IsSound) (hcautious : Cautious run? s) (hpath : path.IsProper)
    (h : Course job template templateName run? path s result s') :
    Confined job template templateName run? ⟨path, s, result, s'⟩ ∧
      Leads (fun loc => (Visit.mk path s result s').IsApplied ∧ loc = place s.world.here path)
        run? s s' := by
  have hlog : ∀ (level : Level) (text : Text),
      ∀ event ∈ [Event.log level text], event.isIdle = true :=
    fun level text event he => List.mem_singleton.mp he ▸ rfl
  cases h with
  | unproposed outcome? script level text h =>
      obtain ⟨reads, hreads, hread_mem⟩ := exists_reads hs path s
      refine confined_of_idle hw hcautious ?_
        (hreads.trans ((Trail.after _ _).trans (Trail.scriptedBy _ _))) (fun event he => ?_) rfl
      · rintro ⟨outcome, hresult, hstatus⟩
        exact h.status_ne outcome (Except.ok.inj hresult) hstatus
      · rcases List.mem_append.mp he with he | he
        · rw [hread_mem event he]
          rfl
        · rw [List.append_nil] at he
          exact hlog level text event he
  | skipped current page s₁ level text hread h hdecide =>
      obtain ⟨events, htrail, hidle, hbackups⟩ := exists_idle hs hread h hdecide
      refine confined_of_idle hw hcautious ?_ (htrail.trans (Trail.after _ _)) ?_ hbackups
      · rintro ⟨outcome, hresult, hstatus⟩
        cases hresult
        cases hstatus
      · exact List.forall_mem_append.mpr ⟨hidle, hlog level text⟩
  | cancelled current page s₁ level text hread h hdecide =>
      obtain ⟨events, htrail, hidle, hbackups⟩ := exists_idle hs hread h hdecide
      refine confined_of_idle hw hcautious ?_ (htrail.trans (Trail.after _ _)) ?_ hbackups
      · rintro ⟨outcome, hresult, hstatus⟩
        cases hresult
        cases hstatus
      · exact List.forall_mem_append.mpr ⟨hidle, hlog level text⟩
  | written current page decision s₁ s₂ level text hread h hskip hcancel hdecide hwrite =>
      rcases leads_approved hs hw hcautious hpath hread h hdecide hwrite with
        ⟨⟨e, he⟩, -⟩ | ⟨-, hleads, htree, hbackups, hbytes, s₃, hbacked, hmemory, hwritten⟩
      · cases he
      · obtain ⟨bytes, hdisk, rfl⟩ := exists_read hs hread
        have hheld := Tree.bytes?_eq_some.mpr (Tree.read_eq_ok.mp hdisk).2
        have hleads' := hleads.idle (Trail.after _ (.log level text)) (hlog level text)
        refine ⟨⟨fun _ => ⟨bytes, page, s₁, s₃, hheld, h.build, h.name, htree, hbackups, hbacked,
            by rw [hmemory], hwritten, hbytes⟩, fun loc hloc hne => ?_, fun hnot => ?_,
            fun outcome? hresult hstatus => ?_⟩, hleads'.mono fun loc hloc => ⟨⟨_, rfl, rfl⟩, hloc⟩⟩
        · refine ⟨⟨_, rfl, rfl⟩, ?_⟩
          by_contra hother
          exact hne (hleads'.spares loc fun h => h.elim hloc hother)
        · exact absurd ⟨_, rfl, rfl⟩ hnot
        · exact absurd rfl (hstatus _ (Except.ok.inj hresult).symm).1
  | failed current page decision s₁ s₂ e script level text hread h hskip hcancel hdecide hwrite =>
      rcases leads_approved hs hw hcautious hpath hread h hdecide hwrite with
        ⟨-, hleads, hown⟩ | ⟨hdone, -⟩
      · refine confined_of_failed (hleads.idle ((Trail.after _ (.log level text)).trans
          (Trail.scriptedBy _ script)) ?_) (fun outcome? hresult => ?_) hown
        · rw [List.append_nil]
          exact hlog level text
        · exact ⟨_, (Except.ok.inj hresult).symm, rfl⟩
      · cases hdone
  | aborted current page decision s₁ s₂ e hread h hskip hcancel hos hdecide hwrite =>
      rcases leads_approved hs hw hcautious hpath hread h hdecide hwrite with
        ⟨-, hleads, hown⟩ | ⟨hdone, -⟩
      · exact confined_of_failed hleads (fun outcome? hresult => by cases hresult) hown
      · cases hdone

end Run

end Stencil

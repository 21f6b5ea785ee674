import Stencil.Proofs.Undo.Courses
import Stencil.Proofs.Undo.Kills
import Stencil.Proofs.Undo.Restoring

/-!
# Runs one after another

Runs follow one another on one backup root, each of them completed, failed or killed anywhere (`History`).
At every point the latest run that has written its manifest can be undone (`History.exists_undoable`).
-/

namespace Stencil

open Stencil.Path (IsName)
open Stencil.Tree (place OnWay)

section History

variable {root : Path} {here : Loc} {attempts : List Attempt} {a : Attempt} {t : Tree}

/-- Disks that runs with backups may leave behind, with the runs so far, the latest first. At first there
is nothing below the backup root. A run then starts on the disk that is there, under a name not used
before, with any front end that leaves the disk alone and any storage that lies over it; it does some of
what it would do, and every manifest that it writes is written. The way to the backup root does not lead
back through the directory of the run, as only double dots could make it do. -/
inductive History (root : Path) (here : Loc) : List Attempt → Tree → Prop
  | start {t : Tree} (ht : t.WellFormed)
      (hempty : ∀ parts, parts ≠ [] → t.node? (place here root ++ parts) = none) :
      History root here [] t
  | run {attempts : List Attempt} {t t' : Tree} (h : History root here attempts t)
      {settings : Settings} {frontEnd : FrontEnd Sim} {storage : Storage Sim}
      (hroot : settings.backupRoot = root) (henabled : settings.backupsEnabled = true)
      (hquiet : frontEnd.IsQuiet) (hs : storage.OverDisk)
      {templatePath : Path} {paths : List Path} {state final : RunState} {w w' : World}
      {result : Except Failure RunSummary} {events done : List Event} {id : Text}
      (htree : w.tree = t) (hhere : w.here = here) (hid : id = World.runName (w.runs + 1))
      (hfresh : ∀ a ∈ attempts, a.id ≠ id)
      (hapart : ∀ loc, OnWay here root loc → ¬ place here root ++ [id] <+: loc)
      (hpaths : ∀ path ∈ paths,
        Run.IsCandidate root here (place here settings.siteRoot) id path)
      (hrun : (Run.run ⟨settings, frontEnd, storage⟩ templatePath paths state).run w =
        ((result, final), w'))
      (hevents : w'.trace = w.trace ++ events) (hleaves : Leaves here w.tag t events done t')
      (hpersists : Persists root here w.tag id t done) :
      History root here (⟨id, t, done⟩ :: attempts) t'

/-- After any history, what can be undone is held. -/
theorem History.ready (hhere : ∀ part ∈ here, IsName part) (h : History root here attempts t) :
    Ready root here attempts t := by
  induction h with
  | start ht hempty =>
      refine ⟨ht, fun a ha => (by cases ha), fun id _ _ parts => hempty _ (List.cons_ne_nil _ _),
        fun _ => ?_, fun a ha => by cases ha⟩
      rw [Backups.place_lastPath, Tree.bytes?, hempty _ (List.cons_ne_nil _ _)]
  | run h hroot henabled hquiet hs htree hhere' hid hfresh hapart hpaths hrun hevents hleaves hpersists
      ih =>
      subst hroot htree hhere' hid
      obtain ⟨events', m, b?, htrail, hrunId, hentries, hmoves⟩ := Run.exists_moves hquiet hs henabled _
        ⟨ih.wellFormed, hhere⟩ hpaths hrun
      obtain rfl := List.append_cancel_left (htrail.trace.symm.trans hevents)
      have hisId : IsId _ _ (World.runName _) :=
        ⟨World.now.isName_runName _, World.now.runName_ne_lastFileName _, hapart⟩
      obtain ⟨b', hstage⟩ := hleaves.exists_stage hmoves (ih.stage hisId hfresh hrunId hentries) rfl
        hpersists
      exact hstage.ready

end History

/-! ## Runs that are killed

Two runs are killed one after the other, each once it has written the first of two pages. -/

namespace KilledRuns

def templateText (word : Text) : Text := Text.concat ["<html><body>", word,
  "<!-- TemplateBeginEditable name=\"r\" -->new<!-- TemplateEndEditable --></body></html>"]

def page : Text := Text.concat ["<html><!-- InstanceBegin template=\"/t.dwt\" -->",
  "<!-- InstanceBeginEditable name=\"r\" -->own<!-- InstanceEndEditable --></html>"]

def file (parts : List Text) : Path := ⟨.slash, "s" :: parts⟩

def root : Path := file ["b"]

def settings : Settings := { Settings.default (file []) with backupDirName := "b" }

def disk : Tree :=
  ⟨[(["s"], .dir), (["s", "one"], .dir), (["s", "one", "t.dwt"], .file (templateText "1").encode),
    (["s", "two"], .dir), (["s", "two", "t.dwt"], .file (templateText "2").encode),
    (["s", "a.html"], .file page.encode), (["s", "c.html"], .file page.encode)]⟩

def world (runs : Nat) (t : Tree) : World := { World.make t [] "1" with runs }

def played (runs : Nat) (t : Tree) (dir : Text) : (Except Failure RunSummary × RunState) × World :=
  (Run.run ⟨settings, Sim.scripted, Storage.disk⟩ (file [dir, "t.dwt"])
    [file ["a.html"], file ["c.html"]] ⟨.autoApplyAll, false⟩).run (world runs t)

/-- A run as far as so many events. -/
def attempt (runs : Nat) (t : Tree) (dir : Text) (count : Nat) : Attempt :=
  ⟨World.runName (runs + 1), t, (played runs t dir).2.trace.take count⟩

def left (a : Attempt) : Tree := World.replay [] "1" a.before a.events

theorem isCandidate {id : Text}
    (hid : ∀ name ∈ (["a.html", "c.html"] : List Text), Backups.manifestName id ≠ name) :
    ∀ path ∈ [file ["a.html"], file ["c.html"]],
      Run.IsCandidate root [] (place [] settings.siteRoot) id path := by
  intro path hpath
  rcases List.mem_cons.mp hpath with rfl | hpath
  · refine ⟨by decide, by decide, ⟨["a.html"], by decide, fun heq => ?_, by decide⟩, by decide⟩
    exact hid _ List.mem_cons_self (List.cons.inj heq).1.symm
  · obtain rfl := List.mem_singleton.mp hpath
    refine ⟨by decide, by decide, ⟨["c.html"], by decide, fun heq => ?_, by decide⟩, by decide⟩
    exact hid _ (List.mem_cons_of_mem _ List.mem_cons_self) (List.cons.inj heq).1.symm

theorem history_attempt {attempts : List Attempt} {t : Tree} {runs : Nat} {dir : Text} (count : Nat)
    (h : History root [] attempts t) (hfresh : ∀ a ∈ attempts, a.id ≠ World.runName (runs + 1))
    (hnames : ∀ name ∈ (["a.html", "c.html"] : List Text),
      Backups.manifestName (World.runName (runs + 1)) ≠ name)
    (hpersists : Persists root [] "1" (World.runName (runs + 1)) t (attempt runs t dir count).events) :
    History root [] (attempt runs t dir count :: attempts) (left (attempt runs t dir count)) :=
  h.run (w := world runs t) rfl rfl FrontEnd.isQuiet_scripted Storage.overDisk_disk rfl rfl rfl hfresh
    (fun loc hway => hway.not_below (by decide) _) (isCandidate hnames) rfl (List.nil_append _).symm
    (.between (List.take_append_drop count _)) hpersists

def first : Attempt := attempt 0 disk "one" 10

def second : Attempt := attempt 1 (left first) "two" 11

theorem history_first : History root [] [first] (left first) := by
  refine history_attempt 10 (.start (Tree.wellFormed_of_nodes (by decide)) fun parts _ =>
      Tree.node?_append_eq_none (by decide) (by decide) parts)
    (fun a ha => by cases ha) (by decide +kernel) ?_
  rw [disk, templateText, templateText, page]
  repeat rw [Text.ofString_ofList]
  decide +kernel

theorem history_second : History root [] [second, first] (left second) := by
  refine history_attempt 11 history_first (List.forall_mem_singleton.mpr (by decide +kernel))
    (by decide +kernel) ?_
  rw [first, disk, templateText, templateText, page]
  repeat rw [Text.ofString_ofList]
  decide +kernel

/-- The page that the second run has written. -/
def written : Bytes := ((left second).bytes? ["s", "a.html"]).getD []

/-- The second run has written its manifest as the last one, and then a page. -/
theorem replaces_second :
    second.hasBegun root = true ∧ Event.replace (file ["a.html"]) written ∈ second.events := by
  rw [written, second, first, disk, templateText, templateText, page]
  repeat rw [Text.ofString_ofList]
  decide +kernel

theorem latest_second : latest root [second, first] = some second := by
  rw [latest_cons, if_pos replaces_second.1]

theorem wrote_second : second.Wrote root [] ["s", "a.html"] :=
  ⟨file ["a.html"], written, replaces_second.2, by decide, by decide⟩

end KilledRuns

end Stencil

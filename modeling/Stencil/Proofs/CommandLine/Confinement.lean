import Stencil.Proofs.CommandLine.Writes

/-!
# What the program writes

Of all that a command line can ask for, only what its command may write is written outside the backup
root, and nothing where it is told that files were left out for safety, that restoring was cancelled, or
that the template cannot be loaded (`obey_bounded`). Two things go further than they are meant to:

- a page is made over a file that is there, without being forced, when the way to it makes a detour
  through a directory that is not there yet (`Detour.obey_bounded_detour`);
- an update is confined to the page that is named (`obey_confined`) unless the name is empty, which
  counts as no name at all (`Nameless.obey_confined_nameless`).
-/

namespace Stencil

open Stencil.Path (IsName)
open Stencil.Tree (place)

theorem exists_of_bind_ok {ε α β : Type} {first : Except ε α} {next : α → Except ε β} {b : β}
    (h : first >>= next = .ok b) : ∃ a, first = .ok a ∧ next a = .ok b := by
  cases first with
  | error e => cases h
  | ok a => exact ⟨a, rfl, h⟩

/-! ## Settings -/

namespace Settings

variable {s s' : Settings} {w : World}

theorem siteRoot_of_map {α : Type} {read : Except SettingsError α} {f : α → Settings}
    (h : read.map f = .ok s') (hf : ∀ a, (f a).siteRoot = s.siteRoot) : s'.siteRoot = s.siteRoot := by
  cases read with
  | error e => cases h
  | ok a => exact Except.ok.inj h ▸ hf a

theorem siteRoot_of_mem_setters {entry : Text × Setter} (hentry : entry ∈ setters) {key : Text}
    {value : Json} (h : entry.2 key value s = .ok s') : s'.siteRoot = s.siteRoot := by
  simp only [setters, List.mem_cons, List.not_mem_nil, or_false] at hentry
  rcases hentry with rfl | rfl | rfl | rfl | rfl | rfl | rfl | rfl | rfl <;>
    exact siteRoot_of_map h fun _ => rfl

theorem siteRoot_setAll {members : List (Text × Json)} (h : s.setAll members = .ok s') :
    s'.siteRoot = s.siteRoot := by
  induction members generalizing s with
  | nil => exact Except.ok.inj h ▸ rfl
  | cons member members ih =>
      obtain ⟨key, value⟩ := member
      rw [setAll] at h
      cases hset : s.set key value with
      | error e =>
          rw [hset] at h
          cases h
      | ok s₁ =>
          rw [hset] at h
          refine (ih h).trans ?_
          rw [set] at hset
          split at hset
          · next setter hlookup =>
            obtain ⟨before, after, heq, -⟩ := List.lookup_eq_some_iff.mp hlookup
            have hmem : (key, setter) ∈ setters := by
              rw [heq]
              exact List.mem_append_right _ List.mem_cons_self
            exact siteRoot_of_mem_setters hmem hset
          · cases hset

theorem siteRoot_apply {members : List (Text × Json)} (h : s.apply members = .ok s') :
    s'.siteRoot = s.siteRoot := by
  rw [apply] at h
  split at h
  · exact siteRoot_setAll h
  · cases h

/-- The settings of a site are read for its own root. -/
theorem siteRoot_of_load {siteRoot : Path} {given : List (Text × Json)}
    (h : ((load siteRoot given : Act Sim Settings).run.run w).1 = .ok s) : s.siteRoot = siteRoot := by
  rw [load, run_bind] at h
  generalize (readFile siteRoot : Act Sim _).run.run w = file at h
  obtain ⟨e | members, w₁⟩ := file
  · cases h
  · dsimp only at h
    cases hset : (default siteRoot).apply members >>= fun s => s.override given with
    | error e =>
        rw [hset] at h
        cases h
    | ok s₁ =>
        rw [hset] at h
        obtain rfl := Except.ok.inj h
        obtain ⟨s₂, hfile, hgiven⟩ := exists_of_bind_ok hset
        exact (siteRoot_apply hgiven).trans (siteRoot_apply hfile)

end Settings

namespace Commands

variable {settings : Settings} {command : Command} {invocation : Invocation} {w w' w₁ w₂ : World}
  {loc : Loc} {result result' : Except Failure ExitCode}

/-- The root of the site that a command line is about. -/
def siteOf (invocation : Invocation) (w : World) : Path :=
  Tree.resolve w.here (Path.ofText (invocation.root?.getD []))

/-- The settings that a command line goes by, if they can be read. -/
def settingsOf (invocation : Invocation) (w : World) : Except Failure Settings :=
  ((Settings.load (siteOf invocation w) (given invocation.command) : Act Sim _).run.run w).1

/-! ## Around a command -/

theorem MayWrite.of_idle {after : Tree} (h : Idle w w₁) (hmay : MayWrite settings w₁ after loc command) :
    MayWrite settings w after loc command := by
  have hupdate : ∀ request, MayUpdate settings request w₁ loc → MayUpdate settings request w loc := by
    rintro request ⟨⟨page, hpage, hloc⟩, honly⟩
    rw [MayUpdate, ← h.here]
    exact ⟨⟨page, (Discovery.mem_instances_of_idle h).mp hpage, hloc⟩, honly⟩
  cases command with
  | updateAll request => exact hupdate request hmay
  | sync request => exact hupdate request hmay
  | findInstances template => exact hmay
  | showRegions file => exact hmay
  | createPage template output? force =>
      obtain ⟨shown, hshown, hcreate⟩ := hmay
      rw [MayCreate, h.tree, h.here] at hcreate
      exact ⟨shown, hshown, hcreate⟩
  | restoreBackup yes =>
      obtain ⟨manifest, hlast, hentry⟩ := hmay
      rw [h.here] at hentry
      exact ⟨manifest, Backups.lastManifest_of_idle h hlast, hentry⟩

/-- Idle steps before and after a command, and a failure told as such, leave it as bounded as it was. -/
theorem Bounded.within (h : Bounded settings command w₁ w₂ result) (hbefore : Idle w w₁)
    (hafter : Idle w₂ w') (hresult : result' = result ∨ result' = .ok .error) :
    Bounded settings command w w' result' where
  changed loc hloc hne := by
    rw [hafter.tree, ← hbefore.tree] at hne
    rw [← hbefore.here] at hloc
    rw [hafter.tree]
    exact (h.changed loc hloc hne).of_idle hbefore
  skipped heq := by
    rw [hafter.tree, ← hbefore.tree]
    rcases hresult with rfl | rfl
    · exact h.skipped heq
    · cases heq
  declined yes hcommand heq := by
    rw [hafter.tree, ← hbefore.tree]
    rcases hresult with rfl | rfl
    · exact h.declined yes hcommand heq
    · cases heq
  unloaded template e htemplate hfails := by
    rw [hafter.tree, ← hbefore.tree]
    exact h.unloaded template e htemplate ((loadTemplate_of_idle hbefore _).trans hfails)

/-- Carrying out what a command line asks for leaves the disk alone or comes to its command. -/
theorem execute_cases (invocation : Invocation) (w : World) :
    Idle w ((execute invocation : Act Sim _).run.run w).2 ∨
    ∃ settings w₁, settingsOf invocation w = .ok settings ∧ Idle w w₁ ∧
      Idle ((run settings invocation.command : Act Sim _).run.run w₁).2
        ((execute invocation : Act Sim _).run.run w).2 ∧
      (((execute invocation : Act Sim _).run.run w).1 =
          ((run settings invocation.command : Act Sim _).run.run w₁).1 ∨
        ((execute invocation : Act Sim _).run.run w).1 = .ok .error) := by
  have hresolve : (Disk.resolve (Path.ofText (invocation.root?.getD [])) : Sim Path).run w =
      (siteOf invocation w, w) := rfl
  have hdir : ∀ (path : Path) (w : World),
      (Disk.isDir path : Sim Bool).run w = (w.tree.isDir w.here path, w) := fun _ _ => rfl
  have hloaded := Settings.isIdle_load (siteOf invocation w) (given invocation.command) w
  rw [settingsOf, execute, ExceptT.run_mk]
  dsimp only
  rw [run_bind_of_run hresolve, run_bind_of_run (hdir _ _)]
  cases w.tree.isDir w.here (siteOf invocation w) with
  | false => exact Or.inl (((IsIdle.printError _).bind fun _ => .pure _) w)
  | true =>
      rw [Bool.not_true, if_neg Bool.false_ne_true]
      rcases hload : (Settings.load (siteOf invocation w) (given invocation.command) :
        Act Sim _).run.run w with ⟨e | settings, w₁⟩
      · rw [run_bind_of_run hload]
        rw [hload] at hloaded
        refine Or.inl (hloaded.trans ?_)
        cases e with
        | settings e => exact ((IsIdle.printError _).bind fun _ => .pure _) w₁
        | _ => exact IsIdle.pure _ w₁
      · rw [run_bind_of_run hload]
        rw [hload] at hloaded
        dsimp only
        rw [run_bind_of_run (hdir _ _)]
        cases w₁.tree.isDir w₁.here settings.templatesDir with
        | false =>
            rw [Bool.not_false, if_pos rfl]
            exact Or.inl (hloaded.trans (((IsIdle.printError _).bind fun _ =>
              (IsIdle.printError _).bind fun _ => (IsIdle.printError _).bind fun _ => .pure _) w₁))
        | true =>
            rw [Bool.not_true, if_neg Bool.false_ne_true]
            refine Or.inr ⟨settings, w₁, rfl, hloaded, ?_⟩
            rcases hrun : (run settings invocation.command : Act Sim _).run.run w₁ with ⟨result, w₂⟩
            rw [run_bind_of_run hrun]
            cases result with
            | ok code => exact ⟨Idle.refl w₂, Or.inl rfl⟩
            | error e =>
                cases e with
                | os e => exact ⟨((IsIdle.log _ _).bind fun _ => .pure _) w₂, Or.inr rfl⟩
                | _ => exact ⟨Idle.refl w₂, Or.inl rfl⟩

/-! ## The program -/

/-- What the program does with its arguments: nothing when they are refused. -/
def obey (arguments : List Text) : Sim (Except Halt (Except Failure ExitCode)) :=
  match Invocation.parse arguments with
  | .error halt => return .error halt
  | .ok invocation => return .ok (← (execute invocation).run)

theorem bounded_execute (invocation : Invocation) (hw : w.IsSound) (hnames : NamesLead w) :
    ((∀ settings, settingsOf invocation w ≠ .ok settings) →
      ((execute invocation : Act Sim _).run.run w).2.tree = w.tree) ∧
    ∀ settings, settingsOf invocation w = .ok settings →
      Run.LastWritten settings.backupRoot w →
        Bounded settings invocation.command w ((execute invocation : Act Sim _).run.run w).2
          ((execute invocation : Act Sim _).run.run w).1 := by
  rcases execute_cases invocation w with hidle | ⟨settings, w₁, hsettings, hbefore, hafter, hresult⟩
  · exact ⟨fun _ => hidle.tree, fun _ _ _ => .of_idle hidle⟩
  · refine ⟨fun hnone => absurd hsettings (hnone settings), fun settings' hsettings' hlast => ?_⟩
    obtain rfl := Except.ok.inj (hsettings.symm.trans hsettings')
    have hsite : IsSite settings w := by
      refine ⟨hw, hnames, ?_, hlast⟩
      rw [Settings.siteRoot_of_load hsettings]
      exact fun part hpart =>
        (Tree.isName_of_mem_place hw.here (Path.isProper_ofText _) part hpart).isPart
    exact (bounded_run invocation.command (hsite.of_idle hbefore)).within hbefore hafter hresult

/-- Whatever the arguments, the program leaves the disk alone or it does to it no more than the command
that they name may do under the settings of the site. -/
theorem obey_bounded (arguments : List Text) (hw : w.IsSound) (hnames : NamesLead w)
    (hlast : ∀ invocation settings, Invocation.parse arguments = .ok invocation →
      settingsOf invocation w = .ok settings → Run.LastWritten settings.backupRoot w) :
    ((obey arguments).run w).2.tree = w.tree ∨
    ∃ invocation settings result, Invocation.parse arguments = .ok invocation ∧
      settingsOf invocation w = .ok settings ∧ ((obey arguments).run w).1 = .ok result ∧
      Bounded settings invocation.command w ((obey arguments).run w).2 result := by
  rw [obey]
  cases hparse : Invocation.parse arguments with
  | error halt => exact Or.inl rfl
  | ok invocation =>
      obtain ⟨hnone, hsome⟩ := bounded_execute invocation hw hnames
      cases hsettings : settingsOf invocation w with
      | error e => exact Or.inl (hnone fun settings heq => by cases hsettings.symm.trans heq)
      | ok settings =>
          exact Or.inr ⟨invocation, settings, _, rfl, hsettings, rfl,
            hsome settings hsettings (hlast invocation settings hparse hsettings)⟩

/-! ## One page only -/

/-- The last value that arguments give for a switch of their command, be it empty. -/
def lastValue? (arguments : List Text) (switch : Switch) : Option Text := do
  let taken ← (Arguments.take Invocation.grammar arguments).toOption
  let words ← taken.words
  let name ← CommandName.ofWord? (words.head?.getD [])
  let taken ← (Arguments.take (Invocation.commandGrammar name) words.tail).toOption
  taken.given.reverse.lookup switch

/-- What a command line that is accepted is read from: its words, and what its command has taken. -/
theorem taken_of_parse {arguments : List Text} (h : Invocation.parse arguments = .ok invocation) :
    ∃ name word taken, invocation.command = Invocation.commandOf name word taken ∧
      ∀ switch, lastValue? arguments switch = taken.given.reverse.lookup switch := by
  obtain ⟨outer, houter, h⟩ := exists_of_bind_ok h
  obtain ⟨words, hwords, h⟩ := exists_of_bind_ok h
  obtain ⟨⟨command, leftOver⟩, hread, h⟩ := exists_of_bind_ok h
  have hcommand : invocation.command = command := by
    dsimp only at h
    split at h
    · rw [← Except.ok.inj h]
    · cases h
  have hsome : outer.words = some words := by
    rw [Invocation.wordsOf] at hwords
    split at hwords
    · next found heq => rw [heq, Except.ok.inj hwords]
    · next heq => cases heq
    · cases hwords
    · cases hwords
  rw [Invocation.readCommand] at hread
  split at hread
  · cases hread
  · next name hname =>
    obtain ⟨taken, htaken, hread⟩ := exists_of_bind_ok hread
    obtain ⟨words', -, hread⟩ := exists_of_bind_ok hread
    refine ⟨name, _, taken, hcommand.trans (congrArg Prod.fst (Except.ok.inj hread)).symm, ?_⟩
    intro switch
    rw [lastValue?, houter]
    show (outer.words >>= _) = _
    rw [hsome]
    show (CommandName.ofWord? (words.head?.getD []) >>= _) = _
    rw [hname]
    show ((Arguments.take (Invocation.commandGrammar name) words.tail).toOption >>= _) = _
    rw [htaken]
    rfl

/-- The page that an update is asked for is the one given last, unless that is empty. -/
theorem only?_of_lastValue? {arguments : List Text} {request : UpdateRequest} {value : Text}
    (hparse : Invocation.parse arguments = .ok invocation)
    (hcommand : invocation.command = .updateAll request ∨ invocation.command = .sync request)
    (hgiven : lastValue? arguments .only = some value) :
    request.only? = if value = [] then none else some value := by
  obtain ⟨name, word, taken, hread, hlast⟩ := taken_of_parse hparse
  rw [hlast] at hgiven
  have hrequest : request.only? = taken.value? .only := by
    rw [hread] at hcommand
    cases name with
    | updateAll | sync => rcases hcommand with heq | heq <;> cases heq; rfl
    | _ => rcases hcommand with heq | heq <;> cases heq
  rw [hrequest, Arguments.Taken.value?, hgiven, Option.filter]
  cases value with
  | nil => rfl
  | cons g value => rfl

/-- An update for which a page is named changes no file outside the backup root but pages of the
template, and no other page than the one that is named unless the name is empty. -/
theorem obey_confined {arguments : List Text} {request : UpdateRequest} {value : Text}
    (hw : w.IsSound) (hnames : NamesLead w) (hparse : Invocation.parse arguments = .ok invocation)
    (hcommand : invocation.command = .updateAll request ∨ invocation.command = .sync request)
    (hgiven : lastValue? arguments .only = some value)
    (hlast : ∀ settings, settingsOf invocation w = .ok settings →
      Run.LastWritten settings.backupRoot w) :
    ((obey arguments).run w).2.tree = w.tree ∨
    ∃ settings, settingsOf invocation w = .ok settings ∧
      ∀ loc, ¬ place w.here settings.backupRoot <+: loc →
        ((obey arguments).run w).2.tree.bytes? loc ≠ w.tree.bytes? loc →
          (∃ page ∈ found settings request.template w, loc = place w.here page) ∧
            (value ≠ [] → loc = place w.here (settings.resolve value)) := by
  have hobey : ((obey arguments).run w).2 = ((execute invocation : Act Sim _).run.run w).2 := by
    rw [obey, hparse]
    rfl
  rw [hobey]
  obtain ⟨hnone, hsome⟩ := bounded_execute invocation hw hnames
  cases hsettings : settingsOf invocation w with
  | error e => exact Or.inl (hnone fun settings heq => by cases hsettings.symm.trans heq)
  | ok settings =>
      refine Or.inr ⟨settings, rfl, fun loc hloc hne => ?_⟩
      have hchanged := (hsome settings hsettings (hlast settings hsettings)).changed loc hloc hne
      have hmay : MayUpdate settings request w loc := by
        rcases hcommand with hcommand | hcommand <;>
          · rw [hcommand] at hchanged
            exact hchanged
      refine ⟨hmay.1, fun hvalue => hmay.2 value ?_⟩
      rw [only?_of_lastValue? hparse hcommand hgiven, if_neg hvalue]

/-! ## Runs that can be gone through -/

/-- The code that the program ends with, if it comes to one. -/
def ended (result : Except Halt (Except Failure ExitCode)) : Option ExitCode :=
  result.toOption.bind Except.toOption

theorem lastWritten_of_nodes {root : Path}
    (h : ∀ entry ∈ w.tree.nodes, entry.1.getLast? ≠ some Backups.lastFileName) :
    Run.LastWritten root w := by
  intro bytes hbytes
  have hnode := Tree.bytes?_eq_some.mp hbytes
  rw [Backups.place_lastPath, Tree.node?, if_neg (List.append_ne_nil_of_right_ne_nil _
    (List.cons_ne_nil _ _))] at hnode
  obtain ⟨before, after, heq, -⟩ := List.lookup_eq_some_iff.mp hnode
  refine absurd ?_ (h _ (heq ▸ List.mem_append_right _ List.mem_cons_self))
  exact List.getLast?_concat

end Commands

/-! ## A detour

The page that is to be made lies beyond a directory that is not there, by a double dot behind it. So
nothing is seen where it is to go; then the directory is made, and the way leads to a file. -/

namespace Commands.Detour

def template : Text := "<html><body></body></html>"

def index : Loc := ["s", "index.html"]

def world : World :=
  World.make ⟨[(["s"], .dir), (["s", "Templates"], .dir),
    (["s", "Templates", "t.dwt"], .file template.encode), (index, .file [])]⟩ ["s"] "1"

def settings : Settings := .default ⟨.slash, ["s"]⟩

def output : Text := "new/../index.html"

def command : Command := .createPage "Templates/t.dwt" (some output) false

def arguments : List Text := ["create-page", "Templates/t.dwt", "--output", output]

def after : World := ((obey arguments).run world).2

theorem parse_arguments : Invocation.parse arguments = .ok ⟨none, false, none, command⟩ := by rfl

theorem settingsOf_arguments : settingsOf ⟨none, false, none, command⟩ world = .ok settings :=
  Backups.toOption_eq_some.mp (by decide +kernel)

theorem isSound_world : world.IsSound :=
  ⟨Tree.wellFormed_of_nodes (by decide +kernel), by decide⟩

theorem namesLead_world : NamesLead world := by
  rw [NamesLead]
  decide +kernel

/-- The file is written over, though nothing is forced. -/
theorem obey_bounded_detour : world.IsSound ∧ NamesLead world ∧
    Bounded settings command world after (.ok .success) ∧
    ¬ place world.here settings.backupRoot <+: index ∧
    world.tree.bytes? index = some [] ∧ after.tree.bytes? index ≠ some [] := by
  have hrun : ended ((obey arguments).run world).1 = some .success ∧
      after.tree.bytes? index ≠ some [] := by
    decide +kernel
  obtain ⟨hended, hchanged⟩ := hrun
  have hheld : world.tree.bytes? index = some [] := by decide +kernel
  refine ⟨isSound_world, namesLead_world, ?_, by decide +kernel, hheld, hchanged⟩
  have hbounded := obey_bounded arguments isSound_world namesLead_world
    fun _ _ _ _ => lastWritten_of_nodes (by decide +kernel)
  rcases hbounded with hsame | ⟨invocation, read, result, hparse, hsettings, hresult, hbounded⟩
  · rw [after, hsame] at hchanged
    exact absurd hheld hchanged
  · obtain rfl := Except.ok.inj (parse_arguments.symm.trans hparse)
    obtain rfl := Except.ok.inj (settingsOf_arguments.symm.trans hsettings)
    rw [hresult] at hended
    obtain rfl := Backups.toOption_eq_some.mp hended
    exact hbounded

end Commands.Detour

/-! ## No name

An empty name is none, so all pages of the template are gone over. -/

namespace Commands.Nameless

def template : Text := Text.concat ["<html><body><p></p>",
  "<!-- TemplateBeginEditable name=\"r\" --><!-- TemplateEndEditable --></body></html>"]

def page : Text := Text.concat ["<html><!-- InstanceBegin template=\"/Templates/t.dwt\" --><body>",
  "<!-- InstanceBeginEditable name=\"r\" --><!-- InstanceEndEditable --></body></html>"]

def index : Loc := ["s", "index.html"]

def world : World :=
  World.make ⟨[(["s"], .dir), (["s", "Templates"], .dir),
    (["s", "Templates", "t.dwt"], .file template.encode), (index, .file page.encode)]⟩ ["s"] "1"

def settings : Settings := { Settings.default ⟨.slash, ["s"]⟩ with autoApply := true }

def name : Text := "index.html"

def arguments (value : Text) : List Text :=
  ["update-all", "Templates/t.dwt", "--instance", value, "--auto-apply"]

def invocation (only? : Option Text) : Invocation :=
  ⟨none, false, none, .updateAll ⟨"Templates/t.dwt", only?, true, false⟩⟩

def after (value : Text) : Tree := ((obey (arguments value)).run world).2.tree

theorem parse_arguments : Invocation.parse (arguments name) = .ok (invocation (some name)) := by rfl

theorem settingsOf_invocation : settingsOf (invocation (some name)) world = .ok settings :=
  Backups.toOption_eq_some.mp (by decide +kernel)

theorem isSound_world : world.IsSound :=
  ⟨Tree.wellFormed_of_nodes (by decide +kernel), by decide⟩

theorem namesLead_world : NamesLead world := by
  rw [NamesLead]
  decide +kernel

/-- Under its name the one page is the only file that may change, and it does; under no name, which is
that of the site, it changes as well. -/
theorem obey_confined_nameless : world.IsSound ∧ NamesLead world ∧
    (∀ loc, ¬ place world.here settings.backupRoot <+: loc →
      (after name).bytes? loc ≠ world.tree.bytes? loc →
        loc = place world.here (settings.resolve name)) ∧
    (after name).bytes? index ≠ world.tree.bytes? index ∧
    lastValue? (arguments []) .only = some [] ∧ index ≠ place world.here (settings.resolve []) ∧
    (after []).bytes? index ≠ world.tree.bytes? index := by
  have hnamed : (after name).bytes? index ≠ world.tree.bytes? index := by
    rw [after, arguments, name, world, template, page, index]
    repeat rw [Text.ofString_ofList]
    decide +kernel
  have hnameless : (after []).bytes? index ≠ world.tree.bytes? index := by
    rw [after, arguments, world, template, page, index]
    repeat rw [Text.ofString_ofList]
    decide +kernel
  refine ⟨isSound_world, namesLead_world, fun loc hloc hne => ?_, hnamed, by decide +kernel,
    by decide +kernel, hnameless⟩
  have hgiven : lastValue? (arguments name) .only = some name := by decide +kernel
  rcases obey_confined isSound_world namesLead_world parse_arguments (Or.inl rfl) hgiven
    fun _ _ => lastWritten_of_nodes (by decide +kernel) with
    hsame | ⟨read, hsettings, hconfined⟩
  · rw [after, hsame] at hnamed
    exact absurd rfl hnamed
  · obtain rfl := Except.ok.inj (settingsOf_invocation.symm.trans hsettings)
    exact (hconfined loc hloc hne).2 (by decide)

end Commands.Nameless

end Stencil

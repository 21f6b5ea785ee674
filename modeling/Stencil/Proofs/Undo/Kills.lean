import Stencil.Proofs.Undo.Stages

/-!
# Runs that are killed

Every move that the books of a run allow keeps disk and books in agreement (`Stage.move`). So they agree
wherever the run is killed (`Leaves.exists_stage`).
-/

namespace Stencil

open Stencil.Path (IsName)
open Stencil.Tree (place OnWay Grows Puts WellFormed)

section Kills

variable {root : Path} {here loc target site : Loc} {tag id : Text} {earlier : List Attempt}
  {a : Attempt} {b b' : Books} {t t' u : Tree} {e : BackupEntry} {m : Manifest}
  {parts rest : List Text} {P : Loc → Prop} {event : Event} {events : List Event}

/-! ## Manifests -/

/-- Before a manifest is written a copy has been made, and so the site is a directory. -/
theorem Stage.dir_site (h : Stage root here site earlier a t b) (hentries : b.next.entries ≠ []) :
    t.node? site = some .dir := by
  obtain ⟨e, he⟩ := List.exists_mem_of_ne_nil _ hentries
  obtain ⟨parts, hkept⟩ := h.tally.keeps e he
  obtain ⟨-, now, -, -, hnow, -⟩ := hkept.bytes
  refine h.scene.wellFormed.dir_above hkept.source.ne_nil ?_
  rw [Tree.bytes?_eq_some.mp hnow]
  exact Option.some_ne_none _

/-- The directory of the run is made, if it is not there. -/
theorem Stage.grows_runDir (h : Stage root here site earlier a t b) (hentries : b.next.entries ≠ [])
    (hwell : u.WellFormed) (hgrows : Grows (OnWay here (Backups.kept root a.id [])) t u)
    (hevents : ∀ path bytes, Event.replace path bytes ∈ events →
      place here root <+: place here path ∧ path ≠ Backups.lastPath root) :
    Stage root here site earlier (a.more events) u b := by
  have hnil : ∀ part ∈ ([] : List Text), IsName part := fun part hpart => by cases hpart
  refine h.grows hwell (hgrows.mono fun loc => isOf_of_onWay_kept h.scene.isId.isName hnil) ?_ hevents
  refine h.scene.mirror_of_grows (fun q hq => ?_) hnil hgrows
  rw [List.prefix_nil.mp hq, List.append_nil]
  exact h.dir_site hentries

/-- The file in the directory of a run that its manifest is kept in. -/
theorem runManifest_spec (root : Path) (here : Loc) (hid : IsName id) :
    (Backups.runManifestPath root id).parent = Backups.kept root id [] ∧
      place here (Backups.runManifestPath root id) =
        place here root ++ [id, Backups.manifestName id] := by
  rw [Backups.runManifestPath_eq root hid]
  refine ⟨parent_kept (List.cons_ne_nil _ _), Backups.place_kept here root hid ?_⟩
  exact List.forall_mem_singleton.mpr (Backups.isName_manifestName hid)

theorem Stage.keeps (h : Stage root here site earlier a t b) (hentries : b.next.entries ≠ [])
    (tag : Text) (bytes : Bytes) :
    Stage root here site earlier (a.more [.replace (Backups.runManifestPath root a.id) bytes])
      (t.replace here tag (Backups.runManifestPath root a.id) bytes).1 b := by
  obtain ⟨hparent, hplace⟩ := runManifest_spec root here h.scene.isId.isName
  obtain ⟨u, hgrows, hwell, hreplace⟩ := Tree.replace_cases h.scene.wellFormed here tag
    (Backups.runManifestPath root a.id) bytes
  rw [hparent] at hgrows
  have hevents : ∀ path bytes', Event.replace path bytes' ∈
      [Event.replace (Backups.runManifestPath root a.id) bytes] →
      place here root <+: place here path ∧ path ≠ Backups.lastPath root := by
    intro path bytes' hmem
    obtain ⟨rfl, -⟩ := Event.replace.inj (List.mem_singleton.mp hmem)
    refine ⟨Backups.place_root_prefix_manifest here root h.scene.isId.isName, fun heq => ?_⟩
    exact Backups.ne_place_lastPath here root h.scene.isId.ne_last
      (hplace.symm.trans (congrArg (place here) heq))
  rcases hreplace with ⟨e, hreplace⟩ | ⟨t', hreplace, hputs, -⟩
  · rw [hreplace]
    exact h.grows_runDir hentries hwell hgrows hevents
  · rw [hreplace]
    -- the directories are there before the file is
    have hgrown : Stage root here site earlier (a.more []) u b :=
      h.grows_runDir hentries hwell hgrows fun path bytes' hmem => by cases hmem
    rw [a.more_nil] at hgrown
    refine hgrown.inside (hplace ▸ (Step.of_grows hwell (Grows.refl u) _).puts hputs)
      (fun e he parts hkept => hkept.source.ne_manifest) (fun q hout hdir => ?_) hevents
    rw [hputs.node? hwell] at hdir
    split at hdir
    · cases hdir
    · exact hgrown.scene.mirror q hout hdir

theorem Stage.publishes (h : Stage root here site earlier a t b) (hentries : b.next.entries ≠ [])
    (hnoted : b.copied? ≠ none → b.stale? ≠ none) {bytes : Bytes}
    (hbytes : Json.writeBytes? b.next.toJson = some bytes)
    (hdone : (t.replace here tag (Backups.lastPath root) bytes).2 = .ok ()) :
    Stage root here site earlier (a.more [.replace (Backups.lastPath root) bytes])
      (t.replace here tag (Backups.lastPath root) bytes).1 ⟨b.next, none, b.stale?⟩ := by
  have hparent : (Backups.lastPath root).parent = root := by
    rw [Backups.lastPath_eq, Path.parent, List.dropLast_concat]
  obtain ⟨u, hgrows, hwell, ⟨e, hreplace⟩ | ⟨t', hreplace, hputs, -⟩⟩ :=
    Tree.replace_cases h.scene.wellFormed here tag (Backups.lastPath root) bytes
  · rw [hreplace] at hdone
    cases hdone
  · rw [hparent] at hgrows
    rw [hreplace]
    have hin : place here root <+: place here (Backups.lastPath root) :=
      Backups.place_root_prefix_last here root
    have hnode := hputs.node? hwell
    have hstep : Step (IsOf root here a.id) (place here (Backups.lastPath root)) t t' :=
      (Step.of_grows hwell (hgrows.mono fun loc => Or.inl) _).puts hputs
    have hne : ∀ rest, place here root ++ a.id :: rest ≠ place here (Backups.lastPath root) :=
      fun rest => Backups.ne_place_lastPath here root h.scene.isId.ne_last
    have hbegun : (a.more [.replace (Backups.lastPath root) bytes]).hasBegun root = true := by
      rw [Attempt.hasBegun_more, List.any_cons, Event.isPublishing, decide_eq_true rfl,
        Bool.true_or, Bool.or_true]
    refine ⟨h.scene.step hstep ?_ ?_ (fun hout => absurd hin hout) fun hnot => ?_, ?_⟩
    · exact fun id hid _ parts => (Backups.ne_place_lastPath here root hid.ne_last).symm
    · intro q hout hdir
      rw [hnode, if_neg (hne q)] at hdir
      refine h.scene.mirror q hout ?_
      rwa [hgrows.node?_of_not h.scene.isId.not_onWay] at hdir
    · cases hbegun.symm.trans hnot
    · refine ⟨h.tally.runId, iff_of_true hbegun hentries, fun _ => ⟨⟨bytes, hbytes, ?_⟩, ?_⟩, ?_, ?_,
        h.tally.stale⟩
      · refine Tree.read_eq_ok.mpr ⟨?_, ?_⟩
        · exact ((Step.of_grows hwell (Grows.refl u) _).puts (P := fun _ => False) hputs).locate
            hputs.locate
        · rw [hnode, if_pos rfl]
      · by_cases hcopied : b.copied? = none
        · rw [Books.next_of_none hcopied] at hentries
          exact (h.tally.published hentries).2
        · exact hnoted hcopied
      · intro e he
        rw [Books.next_of_none rfl] at he
        obtain ⟨parts, hkept⟩ := h.tally.keeps e he
        refine ⟨parts, hkept.step h.scene.isId.isName hstep (hne parts).symm ?_⟩
        exact fun heq => absurd (heq ▸ hin) hkept.source.outside
      · intro loc hwrote
        rcases hwrote.of_more with hwrote | ⟨path, bytes', hmem, rfl, hout⟩
        · obtain ⟨hnames, e, he, hfile⟩ := h.tally.listed loc hwrote
          exact ⟨hnames, e, List.mem_append_left _ he, hfile⟩
        · obtain ⟨rfl, -⟩ := Event.replace.inj (List.mem_singleton.mp hmem)
          exact absurd hin hout

/-! ## Pages -/

theorem Stage.writes (h : Stage root here site earlier a t b) {path : Path} {bytes old : Bytes}
    (hread : t.read here path = .ok old) (hnamed : path.parts ≠ [])
    (houtside : ¬ place here root <+: place here path)
    (hlisted : Lists b.manifest (place here path)) (tag : Text) :
    Stage root here site earlier (a.more [.replace path bytes])
      (t.replace here tag path bytes).1 b := by
  obtain ⟨t', hreplace, hputs⟩ :=
    Tree.replace_of_read h.scene.wellFormed hread hnamed tag bytes
  have hnode := hputs.node? h.scene.wellFormed
  have hstep : Step (IsOf root here a.id) (place here path) t t' :=
    (Step.of_grows h.scene.wellFormed (Grows.refl t) _).puts hputs
  have hwrote : (a.more [.replace path bytes]).Wrote root here (place here path) :=
    ⟨path, bytes, List.mem_append_right _ List.mem_cons_self, rfl, houtside⟩
  have hin : ∀ loc, place here root ++ loc ≠ place here path :=
    fun loc heq => houtside (heq ▸ List.prefix_append _ _)
  have hlast : Event.isPublishing root (.replace path bytes) = false := by
    refine decide_eq_false fun heq => ?_
    rw [heq] at houtside
    exact houtside (Backups.place_root_prefix_last here root)
  have hbegun : (a.more [.replace path bytes]).hasBegun root = a.hasBegun root := by
    rw [Attempt.hasBegun_more, List.any_cons, hlast, List.any_nil, Bool.or_self, Bool.or_false]
  rw [hreplace]
  refine ⟨h.scene.step hstep (fun id _ _ parts => (hin _).symm) ?_ (fun _ => ⟨?_, hwrote⟩)
    fun hnot => ?_, h.tally.step h.scene.isId.isName hstep ?_ (fun e he parts _ => (hin _).symm)
    (fun _ => ⟨?_, hwrote⟩) hbegun fun loc hloc => ?_⟩
  · intro q hout hdir
    rw [hnode, if_neg (hin _)] at hdir
    exact h.scene.mirror q hout hdir
  · rw [Tree.bytes?_eq_some.mpr (Tree.read_eq_ok.mp hread).2]
    exact Option.some_ne_none _
  · obtain ⟨-, e, he, -⟩ := hlisted
    rw [hbegun, h.tally.begun.mpr (List.ne_nil_of_mem he)] at hnot
    cases hnot
  · rw [Backups.place_lastPath]
    exact (hin _).symm
  · rw [Tree.bytes?, hnode, if_pos rfl]
    exact Option.some_ne_none _
  · rcases hloc.of_more with hloc | ⟨path', bytes', hmem, rfl, -⟩
    · exact h.tally.listed loc hloc
    · obtain ⟨rfl, -⟩ := Event.replace.inj (List.mem_singleton.mp hmem)
      exact hlisted

/-! ## The run before -/

/-- What the last manifest names as made obsolete belongs to an earlier run. -/
theorem Stage.note (h : Stage root here site earlier a t b) (hunknown : b.stale? = none)
    {dir? : Option Path} (hdir : ∀ dir, dir? = some dir → Backups.Obsoletes root a.id here t dir) :
    Stage root here site earlier a t { b with stale? := some dir? } := by
  have hentries : b.manifest.entries = [] := by
    by_contra hentries
    exact (h.tally.published hentries).2 hunknown
  have hbegun : a.hasBegun root = false := by
    rw [← Bool.not_eq_true, h.tally.begun]
    exact fun hne => hne hentries
  have hbefore := h.scene.before hbegun
  refine ⟨h.scene, { h.tally with
    published := fun hne => absurd hentries hne
    stale := fun dir heq => ?_ }⟩
  obtain ⟨bytes, value, previous, hread, hvalue, hprevious, -, rfl⟩ :=
    hdir dir (Option.some.inj heq)
  cases hlatest : latest root earlier with
  | none =>
      have hnone := hbefore.unheld hlatest
      rw [Tree.bytes?_eq_some.mpr (Tree.read_eq_ok.mp hread).2] at hnone
      cases hnone
  | some c =>
      obtain ⟨m, site', hholds⟩ := hbefore.held c hlatest
      obtain ⟨written, hwritten, hlast⟩ := hholds.published
      obtain rfl := Except.ok.inj (hlast.symm.trans hread)
      obtain ⟨value', hvalue', hmanifest⟩ := Manifest.exists_of_writeBytes? hwritten
      obtain rfl := Option.some.inj (hvalue.symm.trans hvalue')
      obtain rfl := Except.ok.inj (hprevious.symm.trans hmanifest)
      exact ⟨c, List.mem_of_find?_eq_some hlatest, by rw [hholds.runId]⟩

/-- The directory of an earlier run is removed, or part of it. -/
theorem Stage.loses (h : Stage root here site earlier a t b) {dir : Path}
    (hentries : b.manifest.entries ≠ []) (hstale : b.stale? = some (some dir))
    (hloses : Tree.Loses (place here dir <+: ·) t t') : Stage root here site earlier a t' b := by
  obtain ⟨c, hc, rfl⟩ := h.tally.stale dir hstale
  have hcId := h.scene.ids c hc
  have hplace : place here (Backups.runDir root c.id) = place here root ++ [c.id] := by
    rw [Backups.runDir_eq root hcId.isName, Backups.place_kept here root hcId.isName]
    exact fun part hpart => by cases hpart
  rw [hplace] at hloses
  have hbegun : a.hasBegun root = true := h.tally.begun.mpr hentries
  have hsame : ∀ loc, ¬ place here root <+: loc → t'.bytes? loc = t.bytes? loc := fun loc hout =>
    Tree.bytes?_of_node? (hloses.node? fun hbelow => hout ((List.prefix_append _ _).trans hbelow))
  have hread : ∀ parts bytes, (∀ part ∈ parts, IsName part) → (∀ part ∈ parts.head?, part ≠ c.id) →
      t.read here ⟨root.root, root.parts ++ parts⟩ = .ok bytes →
      t'.read here ⟨root.root, root.parts ++ parts⟩ = .ok bytes :=
    fun parts bytes hnames hhead => hloses.read fun loc hway =>
      Tree.not_prefix_of_onWay hcId.apart hnames hhead hway
  obtain ⟨hpublished, hnoted⟩ := h.tally.published hentries
  constructor
  case scene =>
    refine ⟨hloses.wellFormed, h.scene.isId, h.scene.ids, h.scene.fresh,
      fun id hid hother hne parts => hloses.eq_none (h.scene.vacant id hid hother hne parts),
      fun hnot => (by cases hbegun.symm.trans hnot), fun q hout hdir => ?_, fun loc hout hnot => ?_⟩
    · rw [hsame _ hout]
      exact h.scene.mirror q hout (hloses.of_dir hdir)
    · rw [hsame loc hout]
      exact h.scene.spared loc hout hnot
  case tally =>
    refine { h.tally with published := fun _ => ⟨?_, hnoted⟩, keeps := fun e he => ?_ }
    · obtain ⟨bytes, hbytes, hlast⟩ := hpublished
      rw [Backups.lastPath_eq] at hlast
      refine ⟨bytes, hbytes, ?_⟩
      rw [Backups.lastPath_eq]
      exact hread _ bytes (List.forall_mem_singleton.mpr Backups.isName_lastFileName)
        (fun part hpart => Option.some.inj hpart ▸ hcId.ne_last.symm) hlast
    · obtain ⟨parts, hkept⟩ := h.tally.keeps e he
      obtain ⟨bytes, now, hbytes, hcopy, hnow, hunwritten⟩ := hkept.bytes
      refine ⟨parts, hkept.source, hkept.entry, bytes, now, hbytes, ?_, ?_, hunwritten⟩
      · refine hread _ bytes (List.forall_mem_cons.mpr ⟨h.scene.isId.isName, fun part hpart => ?_⟩)
          (fun part hpart => Option.some.inj hpart ▸ (h.scene.fresh c hc).symm) hcopy
        exact hkept.source.names part (List.mem_append_right _ hpart)
      · rw [hsame _ hkept.source.outside, hnow]

/-! ## Runs -/

/-- Every move that the books allow keeps disk and books in agreement. -/
theorem Stage.move (h : Stage root here site earlier a t b)
    (hmove : Move root here tag site a.id b t event b') :
    Stage root here site earlier (a.more [event]) (event.replay here tag t) b' := by
  cases hmove with
  | idle hidle =>
      rw [Event.replay_of_isIdle hidle]
      refine h.adds fun path bytes heq => ?_
      rw [heq] at hidle
      cases hidle
  | refused hread hplace hsource hfails => exact h.refused hread hplace hsource hfails
  | copies hread hplace hsource hcopied hunlisted hdone =>
      exact h.copies hread hplace hsource hcopied hunlisted hdone
  | keeps hentries => exact h.keeps hentries tag _
  | publishes hentries hnoted hbytes hdone => exact h.publishes hentries hnoted hbytes hdone
  | writes hcopied hread hnamed houtside hlisted =>
      exact h.writes hread hnamed houtside hlisted tag
  | removes hcopied hentries hstale =>
      exact (h.loses hentries hstale (.removeTree h.scene.wellFormed here _)).adds
        fun path bytes heq => by cases heq

/-- However far a run has got, disk and books agree. -/
theorem Moves.exists_stage {b? : Option Books} {done rest : List Event}
    (h : Moves root here tag site id (some b) t (done ++ rest) b?)
    (hstage : Stage root here site earlier a t b) (hid : a.id = id)
    (hpersists : Persists root here tag id t done) :
    ∃ b', Stage root here site earlier (a.more done) (World.replay here tag t done) b' ∧
      Moves root here tag site id (some b') (World.replay here tag t done) rest b? := by
  generalize hbooks : some b = books? at h
  generalize hevents : done ++ rest = events at h
  induction h generalizing a b done with
  | nil books? t =>
      obtain ⟨rfl, rfl⟩ := List.append_eq_nil_iff.mp hevents
      obtain rfl := hbooks
      rw [a.more_nil]
      exact ⟨b, hstage, .nil _ _⟩
  | note dir? hunknown hdir h ih =>
      obtain rfl := Option.some.inj hbooks
      exact ih (hstage.note hunknown (hid ▸ hdir)) hid hpersists rfl hevents
  | @step _ _ t event events _ hmove h ih =>
      obtain rfl := Option.some.inj hbooks
      cases done with
      | nil =>
          obtain rfl := hevents
          rw [a.more_nil]
          exact ⟨b, hstage, .step hmove h⟩
      | cons event' done =>
          obtain ⟨rfl, hrest⟩ := List.cons.inj hevents
          have hnext := ih (hstage.move (hid ▸ hmove)) hid hpersists.2 rfl hrest
          rw [Attempt.more_more] at hnext
          exact hnext
  | @fail _ t event events _ hmanifest hentries hfails h ih =>
      obtain rfl := Option.some.inj hbooks
      cases done with
      | nil =>
          obtain rfl := hevents
          rw [a.more_nil]
          exact ⟨b, hstage, .fail hmanifest hentries hfails h⟩
      | cons event' done =>
          obtain ⟨rfl, -⟩ := List.cons.inj hevents
          exact absurd (hpersists.1 hmanifest) hfails
  | lost h ih => cases hbooks

/-- What a run is about to do its books allow, or it is a manifest that will not be written. -/
theorem Moves.exists_next {b? : Option Books} {rest : List Event}
    (h : Moves root here tag site id (some b) t (event :: rest) b?)
    (hstage : Stage root here site earlier a t b) (hid : a.id = id) :
    ∃ b', Stage root here site earlier a t b' ∧
      ((∃ b'', Move root here tag site id b' t event b'') ∨
        Backups.IsManifest root id event ∧ b'.next.entries ≠ []) := by
  generalize hbooks : some b = books? at h
  generalize hevents : event :: rest = events at h
  induction h generalizing b with
  | nil books? t => cases hevents
  | note dir? hunknown hdir h ih =>
      obtain rfl := Option.some.inj hbooks
      exact ih (hstage.note hunknown (hid ▸ hdir)) rfl hevents
  | step hmove h ih =>
      obtain rfl := Option.some.inj hbooks
      obtain ⟨rfl, rfl⟩ := List.cons.inj hevents
      exact ⟨b, hstage, Or.inl ⟨_, hmove⟩⟩
  | fail hmanifest hentries hfails h ih =>
      obtain rfl := Option.some.inj hbooks
      obtain ⟨rfl, -⟩ := List.cons.inj hevents
      exact ⟨b, hstage, Or.inr ⟨hmanifest, hentries⟩⟩
  | lost h ih => cases hbooks

/-! ## Directories on the way -/

/-- Making the directories above a manifest. -/
theorem Stage.grows_manifest (h : Stage root here site earlier a t b)
    (hmanifest : Backups.IsManifest root a.id event) (hentries : b.next.entries ≠ []) {path : Path}
    (hmade : event.made? = some path) (hwell : u.WellFormed)
    (hgrows : Grows (OnWay here path.parent) t u) : Stage root here site earlier a u b := by
  have hdirs : ∀ loc, OnWay here path.parent loc → OnWay here (Backups.kept root a.id []) loc := by
    obtain ⟨bytes, rfl | rfl⟩ := hmanifest <;> obtain rfl := Option.some.inj hmade
    · rw [(runManifest_spec root here h.scene.isId.isName).1]
      exact fun loc => id
    · rintro loc ⟨q, hq, rfl⟩
      rw [Backups.lastPath_eq, Path.parent, List.dropLast_concat] at hq ⊢
      exact ⟨q, hq.trans (List.prefix_append _ _), rfl⟩
  rw [← a.more_nil]
  exact h.grows_runDir hentries hwell (hgrows.mono hdirs) fun path bytes hmem => by cases hmem

/-- Making the directories above a file that the books allow to be made. -/
theorem Stage.grows_move (h : Stage root here site earlier a t b)
    (hmove : Move root here tag site a.id b t event b') {path : Path}
    (hmade : event.made? = some path) (hwell : u.WellFormed)
    (hgrows : Grows (OnWay here path.parent) t u) : Stage root here site earlier a u b := by
  have hnone : ∀ path bytes, Event.replace path bytes ∈ ([] : List Event) →
      place here root <+: place here path ∧ path ≠ Backups.lastPath root :=
    fun path bytes hmem => by cases hmem
  cases hmove with
  | idle hidle =>
      cases event with
      | replace path bytes => cases hidle
      | copy source target => cases hidle
      | _ => cases hmade
  | refused hread hplace hsource =>
      obtain rfl := Option.some.inj hmade
      rw [← a.more_nil]
      exact h.grows_copy hread hplace hsource hwell hgrows hnone
  | copies hread hplace hsource =>
      obtain rfl := Option.some.inj hmade
      rw [← a.more_nil]
      exact h.grows_copy hread hplace hsource hwell hgrows hnone
  | keeps hentries => exact h.grows_manifest ⟨_, Or.inl rfl⟩ hentries hmade hwell hgrows
  | publishes hentries => exact h.grows_manifest ⟨_, Or.inr rfl⟩ hentries hmade hwell hgrows
  | writes hcopied hread hnamed =>
      obtain rfl := Option.some.inj hmade
      -- the file is there, and so are the directories above it
      have hsame : Grows (fun _ => False) t u := hgrows.of_there fun loc hloc => by
        rw [Tree.dir_of_onWay_parent hread hnamed hloc]
        exact Option.some_ne_none _
      rw [← a.more_nil]
      refine h.grows hwell (hsame.mono fun loc hfalse => hfalse.elim) (fun q hout hdir => ?_) hnone
      exact h.scene.mirror q hout ((hsame.node?_of_not id).symm.trans hdir)
  | removes => cases hmade

/-! ## Runs that are killed -/

/-- What is left on the disk of a run that would do these events: some of them are done, and of the next
one there may be directories made for its file, or a part of the directory that it was to remove. -/
inductive Leaves (here : Loc) (tag : Text) (t : Tree) (events : List Event) :
    List Event → Tree → Prop
  | between {done rest : List Event} (h : done ++ rest = events) :
      Leaves here tag t events done (World.replay here tag t done)
  | opening {done rest : List Event} {event : Event} {path : Path} {t' : Tree}
      (h : done ++ event :: rest = events) (hmade : event.made? = some path) (hwell : t'.WellFormed)
      (hgrows : Grows (OnWay here path.parent) (World.replay here tag t done) t') :
      Leaves here tag t events done t'
  | within {done rest : List Event} {dir : Path} {t' : Tree}
      (h : done ++ .removeTree dir :: rest = events)
      (hloses : Tree.Loses (place here dir <+: ·) (World.replay here tag t done) t') :
      Leaves here tag t events done t'

/-- Wherever a run is killed, disk and books agree. -/
theorem Leaves.exists_stage {b? : Option Books} {done : List Event}
    (h : Leaves here tag t events done t') (hmoves : Moves root here tag site id (some b) t events b?)
    (hstage : Stage root here site earlier a t b) (hid : a.id = id)
    (hpersists : Persists root here tag id t done) :
    ∃ b', Stage root here site earlier (a.more done) t' b' := by
  cases h with
  | between h =>
      obtain ⟨b', hstage', -⟩ := (h ▸ hmoves).exists_stage hstage hid hpersists
      exact ⟨b', hstage'⟩
  | opening h hmade hwell hgrows =>
      obtain ⟨b', hstage', hrest⟩ := (h ▸ hmoves).exists_stage hstage hid hpersists
      obtain ⟨b'', hstage'', ⟨_, hmove⟩ | ⟨hmanifest, hentries⟩⟩ := hrest.exists_next hstage' hid
      · exact ⟨b'', hstage''.grows_move (hid ▸ hmove) hmade hwell hgrows⟩
      · exact ⟨b'', hstage''.grows_manifest (hid ▸ hmanifest) hentries hmade hwell hgrows⟩
  | within h hloses =>
      obtain ⟨b', hstage', hrest⟩ := (h ▸ hmoves).exists_stage hstage hid hpersists
      obtain ⟨b'', hstage'', ⟨_, hmove⟩ | ⟨⟨bytes, heq | heq⟩, -⟩⟩ := hrest.exists_next hstage' hid
      · cases hmove with
        | idle hidle => cases hidle
        | removes hcopied hentries hstale => exact ⟨b'', hstage''.loses hentries hstale hloses⟩
      · cases heq
      · cases heq

end Kills

end Stencil

import Stencil.Proofs.Run.Writing
import Stencil.Proofs.Undo.Taking

/-!
# Files that keep apart

When all changes are approved beforehand, what comes of a file is settled by the disk that is found when
its turn comes (`Comes`). If no two files are the same one then what is done for the others meanwhile
makes no difference (`Field.comes_alike`): it touches neither the file nor the place of its copy, and
where the manifest of the run comes to stand in the way of the copy, the copy is refused whenever it is
tried.
-/

namespace Stencil

open Stencil.Path (IsName)
open Stencil.Tree (Direct Puts Straight isBelow place)

namespace Backups

variable {root : Path} {here loc : Loc} {id : Text} {parts : List Text}

theorem IsTaken.within (h : IsTaken root here id parts loc) : place here root <+: loc := by
  rcases h with hshelf | rfl | rfl
  · exact (List.prefix_append _ _).trans hshelf
  · exact List.prefix_append _ _
  · exact List.prefix_append _ _

theorem shelf_prefix_iff {parts' : List Text} :
    shelf root here id parts <+: shelf root here id parts' ↔ parts <+: parts' := by
  rw [shelf, shelf, List.prefix_append_right_inj, List.cons_prefix_cons, and_iff_right rfl]

end Backups

open Backups (IsAbove IsTaken copying entryFor kept lastLoc manifestLoc shelf)

namespace Run

variable {job : Job Sim} {settings : Settings} {faults : Faults} {template : Template}
  {templateName text : Text} {run? : Option Text} {here loc : Loc} {id : Text} {path other : Path}
  {paths : List Path} {t t' t₁ t₂ u u₁ u₂ : Tree} {entries : List BackupEntry}
  {listed? entry₁? entry₂? : Option BackupEntry} {outcome? outcome₁? outcome₂? : Option Outcome}
  {among among' : Path → Prop} {s s' : Standing Progress}

/-! ## Files that keep apart -/

/-- The way from the site to a file below it. -/
def behind (settings : Settings) (here : Loc) (path : Path) : List Text :=
  (place here path).drop (place here settings.siteRoot).length

/-- Files below the site that a run is to take, and a disk that has them. -/
structure Field (settings : Settings) (run? : Option Text) (here : Loc) (id : Text)
    (paths : List Path) (t : Tree) : Prop where
  wellFormed : t.WellFormed
  names : ∀ part ∈ here, IsName part
  isName : IsName id
  ne_last : id ≠ Backups.lastFileName
  candidates : ∀ path ∈ paths,
    IsCandidate settings.backupRoot here (place here settings.siteRoot) id path
  readable : ∀ path ∈ paths, ∃ bytes, t.read here path = .ok bytes
  straight : run? = some id → Straight t here settings.backupRoot

/-- Where something is made or changed for one of these files. -/
def IsTouched (settings : Settings) (here : Loc) (id : Text) (among : Path → Prop) (loc : Loc) :
    Prop :=
  ∃ path, among path ∧ (loc = place here path ∨
    IsTaken settings.backupRoot here id (behind settings here path) loc)

/-- Where directories are made for one of these files. -/
def IsLaid (settings : Settings) (here : Loc) (id : Text) (among : Path → Prop) (loc : Loc) : Prop :=
  ∃ path, among path ∧ IsAbove settings.backupRoot here id (behind settings here path) loc

/-- Nothing has happened but what is done for some of these files. -/
def Wakes (settings : Settings) (here : Loc) (id : Text) (among : Path → Prop) (t t' : Tree) : Prop :=
  Tree.Changes (IsLaid settings here id among) (IsTouched settings here id among) t t'

theorem Wakes.mono (h : Wakes settings here id among t t') (hamong : ∀ path, among path → among' path) :
    Wakes settings here id among' t t' :=
  Tree.Changes.mono h (fun _ ⟨path, hpath, hloc⟩ => ⟨path, hamong path hpath, hloc⟩)
    fun _ ⟨path, hpath, hloc⟩ => ⟨path, hamong path hpath, hloc⟩

/-- The files apart from one. -/
def Others (here : Loc) (paths : List Path) (path other : Path) : Prop :=
  other ∈ paths ∧ place here other ≠ place here path

/-- Where a file or its copy lies. -/
def IsSpot (settings : Settings) (here : Loc) (id : Text) (path : Path) (loc : Loc) : Prop :=
  loc = place here path ∨ loc = shelf settings.backupRoot here id (behind settings here path)

namespace Field

variable (h : Field settings run? here id paths t)

include h

theorem source (hpath : path ∈ paths) :
    place here path = place here settings.siteRoot ++ behind settings here path ∧
      IsSource settings.backupRoot here (place here settings.siteRoot) id
        (behind settings here path) := by
  obtain ⟨parts, hplace, hsource⟩ := (h.candidates path hpath).exists_source h.names
  have hbehind : behind settings here path = parts := by rw [behind, hplace, List.drop_left]
  rw [hbehind]
  exact ⟨hplace, hsource⟩

theorem exists_file (hpath : path ∈ paths) :
    ∃ bytes, t.node? (place here path) = some (.file bytes) := by
  obtain ⟨bytes, hread⟩ := h.readable path hpath
  exact ⟨bytes, (Tree.read_eq_ok.mp hread).2⟩

/-- No file lies below another. -/
theorem place_eq_of_prefix (hpath : path ∈ paths) (hother : other ∈ paths)
    (hstarts : behind settings here path <+: behind settings here other) :
    place here path = place here other := by
  obtain ⟨rest, hrest⟩ := hstarts
  obtain ⟨bytes, hfile⟩ := h.exists_file hpath
  obtain ⟨bytes', hfile'⟩ := h.exists_file hother
  have hplace : place here other = place here path ++ rest := by
    rw [(h.source hpath).1, (h.source hother).1, ← hrest, List.append_assoc]
  by_cases hnil : rest = []
  · rw [hplace, hnil, List.append_nil]
  · have hdir := h.wellFormed.dir_above hnil (by rw [← hplace, hfile']; exact Option.some_ne_none _)
    cases hfile.symm.trans hdir

/-- Directories are made above copies, and in none of their places. -/
theorem not_within_of_isLaid (hpath : path ∈ paths) (hamong : ∀ other, among other → other ∈ paths)
    (hlaid : IsLaid settings here id among loc) :
    ¬ shelf settings.backupRoot here id (behind settings here path) <+: loc := by
  obtain ⟨other, hother, -, hbelow⟩ := hlaid
  intro hstarts
  have hlong := List.length_pos_iff.mpr (h.source hpath).2.ne_nil
  have hlength := hstarts.length_le
  rw [shelf, List.length_append, List.length_cons] at hlength
  rcases hbelow with hbelow | hbelow | hbelow
  · obtain ⟨rest, hrest, heq⟩ := Tree.isBelow_iff.mp hbelow
    have hbehind := Backups.shelf_prefix_iff.mp (hstarts.trans ⟨rest, heq.symm⟩)
    have hplace := h.place_eq_of_prefix hpath (hamong other hother) hbehind
    rw [behind, ← hplace, ← behind] at heq
    have hlength' := congrArg List.length heq
    have hpos := List.length_pos_iff.mpr hrest
    have hlengths := hstarts.length_le
    rw [List.length_append] at hlength'
    omega
  · obtain ⟨rest, hrest, heq⟩ := Tree.isBelow_iff.mp hbelow
    have hlength' := congrArg List.length heq
    have hpos := List.length_pos_iff.mpr hrest
    simp only [manifestLoc, shelf, List.length_append, List.length_cons, List.length_nil] at hlength'
    omega
  · obtain ⟨rest, hrest, heq⟩ := Tree.isBelow_iff.mp hbelow
    have hlength' := congrArg List.length heq
    have hpos := List.length_pos_iff.mpr hrest
    simp only [lastLoc, List.length_append, List.length_cons, List.length_nil] at hlength'
    omega

theorem not_below_of_lastLoc {parts : List Text} :
    ¬ isBelow (lastLoc settings.backupRoot here) (shelf settings.backupRoot here id parts) = true := by
  intro hbelow
  obtain ⟨rest, -, heq⟩ := Tree.isBelow_iff.mp hbelow
  rw [lastLoc, shelf, List.append_assoc] at heq
  exact h.ne_last (List.cons.inj (List.append_cancel_left heq)).1

/-- Where a directory is made for one file nothing else is made for another. -/
theorem not_isTouched_of_isLaid (hamong : ∀ other, among other → other ∈ paths)
    (hamong' : ∀ other, among' other → other ∈ paths)
    (hlaid : IsLaid settings here id among loc ∧ t.node? loc = none) :
    ¬ IsTouched settings here id among' loc := by
  obtain ⟨hlaid, hnone⟩ := hlaid
  rintro ⟨path, hpath, rfl | hshelf | rfl | rfl⟩
  · obtain ⟨bytes, hfile⟩ := h.exists_file (hamong' path hpath)
    cases hnone.symm.trans hfile
  · exact h.not_within_of_isLaid (hamong' path hpath) hamong hlaid hshelf
  · obtain ⟨other, -, hne, -⟩ := hlaid
    exact hne rfl
  · obtain ⟨other, -, -, hbelow | hbelow | hbelow⟩ := hlaid
    · exact h.not_below_of_lastLoc hbelow
    · exact h.not_below_of_lastLoc hbelow
    · exact Tree.not_isBelow_self _ hbelow

/-- Nothing that is done for other files touches a file or its copy. -/
theorem not_isTouched_of_isSpot (hpath : path ∈ paths) (hspot : IsSpot settings here id path loc) :
    ¬ IsTouched settings here id (Others here paths path) loc := by
  obtain ⟨hplace, hsource⟩ := h.source hpath
  rintro ⟨other, ⟨hother, hne⟩, htouched⟩
  obtain ⟨hplace', hsource'⟩ := h.source hother
  rcases hspot with rfl | rfl
  · rcases htouched with heq | htaken
    · exact hne heq.symm
    · exact hsource.outside (hplace ▸ htaken.within)
  · rcases htouched with heq | hshelf | heq | heq
    · refine hsource'.outside ?_
      rw [← hplace', ← heq]
      exact List.prefix_append _ _
    · exact hne (h.place_eq_of_prefix hother hpath (Backups.shelf_prefix_iff.mp hshelf))
    · exact hsource.ne_manifest (List.cons.inj (List.append_cancel_left heq)).2
    · exact Backups.shelf_ne_lastLoc h.ne_last heq

/-- The only thing new that can stand in the way of a copy is the manifest of the run. -/
theorem eq_manifestLoc (hpath : path ∈ paths)
    (htouched : IsTouched settings here id (Others here paths path) loc) (hnone : t.node? loc = none)
    (hbelow : isBelow loc (shelf settings.backupRoot here id (behind settings here path)) = true) :
    loc = manifestLoc settings.backupRoot here id := by
  obtain ⟨other, ⟨hother, hne⟩, rfl | hshelf | rfl | rfl⟩ := htouched
  · obtain ⟨bytes, hfile⟩ := h.exists_file hother
    cases hnone.symm.trans hfile
  · obtain ⟨rest, -, heq⟩ := Tree.isBelow_iff.mp hbelow
    refine absurd (h.place_eq_of_prefix hother hpath ?_) hne
    exact Backups.shelf_prefix_iff.mp (hshelf.trans ⟨rest, heq.symm⟩)
  · rfl
  · exact absurd hbelow h.not_below_of_lastLoc

theorem changes {P T : Loc → Prop} (hchanges : Tree.Changes P T t t') :
    Field settings run? here id paths t' where
  wellFormed := hchanges.wellFormed
  names := h.names
  isName := h.isName
  ne_last := h.ne_last
  candidates := h.candidates
  readable path hpath := by
    obtain ⟨bytes, hread⟩ := h.readable path hpath
    obtain ⟨hlocate, hnode⟩ := Tree.read_eq_ok.mp hread
    obtain ⟨bytes', hbytes'⟩ := Option.ne_none_iff_exists'.mp (hchanges.files (place here path) (by
      rw [Tree.bytes?_eq_some.mpr hnode]
      exact Option.some_ne_none _))
    exact ⟨bytes', Tree.read_eq_ok.mpr
      ⟨Tree.locate_of_dirs hchanges.dirs hlocate, Tree.bytes?_eq_some.mp hbytes'⟩⟩
  straight hrun := (h.straight hrun).changes hchanges

theorem direct (hrun : run? = some id) (hpath : path ∈ paths) : Direct t here path
    (kept settings.backupRoot id (behind settings here path)) := by
  obtain ⟨bytes, hread⟩ := h.readable path hpath
  obtain ⟨hplace, hsource⟩ := h.source hpath
  exact Backups.direct_of_source (h.straight hrun) h.isName (h.candidates path hpath).isProper hplace
    hsource hread

/-- A copy comes to the same whatever has been done for other files, unless it cannot be made where the
manifest of the run lies. -/
theorem copying_alike (hrun : run? = some id) (hpath : path ∈ paths)
    (h₁ : Wakes settings here id (Others here paths path) t t₁)
    (h₂ : Wakes settings here id (Others here paths path) t t₂)
    (hfree : ∀ u, u = t₁ ∨ u = t₂ →
      copying faults here u path (kept settings.backupRoot id (behind settings here path)) = .ok () →
      ¬ isBelow (manifestLoc settings.backupRoot here id)
        (shelf settings.backupRoot here id (behind settings here path)) = true) :
    copying faults here t₁ path (kept settings.backupRoot id (behind settings here path)) =
      copying faults here t₂ path (kept settings.backupRoot id (behind settings here path)) := by
  simp only [copying] at hfree ⊢
  by_cases hfault : path.text ∈ faults.copy
  · rw [if_pos hfault, if_pos hfault]
  · simp only [if_neg hfault] at hfree ⊢
    obtain ⟨bytes, hread⟩ := h.readable path hpath
    have hshelf := (h.source hpath).2.place_kept h.isName
    refine (h.direct hrun hpath).copy_alike h.wellFormed hread h₁.fresh h₂.fresh ?_ ?_ ?_ ?_
    · exact h.not_isTouched_of_isSpot hpath (Or.inl rfl)
    · exact fun loc hlaid => h.not_isTouched_of_isLaid (fun _ => And.left) (fun _ => And.left) hlaid
    · rw [hshelf]
      exact fun loc hlaid => h.not_within_of_isLaid hpath (fun _ => And.left) hlaid.1
    · rw [hshelf]
      intro loc htouched hnone hbelow
      obtain rfl := h.eq_manifestLoc hpath htouched hnone hbelow
      exact ⟨fun hok => hfree t₁ (Or.inl rfl) hok hbelow, fun hok => hfree t₂ (Or.inr rfl) hok hbelow⟩

/-- Where a file or its copy lies there is what has been there, whatever has been done for others. -/
theorem bytes?_eq (hpath : path ∈ paths) (hspot : IsSpot settings here id path loc)
    (hwakes : Wakes settings here id (Others here paths path) t t') : t'.bytes? loc = t.bytes? loc :=
  Tree.Changes.bytes? hwakes (h.not_isTouched_of_isSpot hpath hspot)

theorem read_eq (hpath : path ∈ paths)
    (hwakes : Wakes settings here id (Others here paths path) t t') :
    t'.read here path = t.read here path := by
  obtain ⟨bytes, hread⟩ := h.readable path hpath
  rw [hread]
  exact Tree.Changes.read hwakes (h.not_isTouched_of_isSpot hpath (Or.inl rfl)) hread

theorem isDir_eq (hrun : run? = some id) (hpath : path ∈ paths)
    (hwakes : Wakes settings here id (Others here paths path) t t') :
    t'.isDir here (kept settings.backupRoot id (behind settings here path)) =
      t.isDir here (kept settings.backupRoot id (behind settings here path)) := by
  refine Tree.Changes.isDir_eq hwakes h.wellFormed (h.direct hrun hpath).target_straight fun hlaid => ?_
  rw [(h.source hpath).2.place_kept h.isName] at hlaid
  exact h.not_within_of_isLaid hpath (fun _ => And.left) hlaid List.prefix_rfl

end Field

/-! ## What comes of a file -/

/-- A run that follows a script, over a disk that refuses some operations. -/
def faulty (settings : Settings) (faults : Faults) : Job Sim :=
  ⟨settings, Sim.scripted, Storage.disk.withFaults faults⟩

/-- What reading a file gives. -/
def reading (faults : Faults) (here : Loc) (t : Tree) (path : Path) : Except OsError Text :=
  if path.text ∈ faults.read then .error (Storage.refusal "read" path)
  else (t.read here path).map Text.decode

/-- What writing a file gives that can be read. -/
def writing (faults : Faults) (path : Path) : Except OsError Unit :=
  if path.text ∈ faults.write then .error (Storage.refusal "write" path) else .ok ()

/-- The outcome for a page that was to be written. -/
def verdict (settings : Settings) (path : Path) (changes : List Change) :
    Except OsError Unit → Outcome
  | .ok () => ⟨settings.display path, .applied, [], changes⟩
  | .error e => ⟨settings.display path, .ioFailed, e.message, changes⟩

/-- The file has been backed up, if backups are kept. -/
inductive Shelved (settings : Settings) (faults : Faults) (run? : Option Text) (here : Loc) (id : Text)
    (path : Path) (t u : Tree) : Option BackupEntry → Prop
  | plain (hrun : run? = none) (hsame : u = t) : Shelved settings faults run? here id path t u none
  | copied {bytes : Bytes} (hrun : run? = some id) (hread : t.read here path = .ok bytes)
      (hcopy : copying faults here t path
        (kept settings.backupRoot id (behind settings here path)) = .ok ())
      (h : Backups.Takes settings.backupRoot here id (behind settings here path) bytes t u) :
      Shelved settings faults run? here id path t u
        (some (entryFor settings.backupRoot here settings.siteRoot id path))

/-- A text is written over the file, behind its backup. -/
inductive Writes (settings : Settings) (faults : Faults) (run? : Option Text) (here : Loc) (id : Text)
    (path : Path) (text : Text) (t u : Tree) : Except OsError Unit → Option BackupEntry → Prop
  | refused (e : OsError) (hrun : run? = some id)
      (hcopy : copying faults here t path
        (kept settings.backupRoot id (behind settings here path)) = .error e)
      (hsame : u = t) : Writes settings faults run? here id path text t u (.error e) none
  | shelved {t' : Tree} {listed? : Option BackupEntry}
      (h : Shelved settings faults run? here id path t t' listed?)
      (hwrites : path.text ∈ faults.write ∧ u = t' ∨
        path.text ∉ faults.write ∧ Puts here path text.encode t' u) :
      Writes settings faults run? here id path text t u (writing faults path) listed?

/-- What comes of the file: nothing is proposed, or what is proposed is approved and written. -/
inductive Comes (settings : Settings) (faults : Faults) (template : Template) (templateName : Text)
    (run? : Option Text) (here : Loc) (id : Text) (path : Path) (t u : Tree) :
    Option Outcome → Option BackupEntry → Prop
  | passed {outcome? : Option Outcome}
      (h : Unproposed (faulty settings faults) template templateName path (reading faults here t path)
        outcome?) (hsame : u = t) :
      Comes settings faults template templateName run? here id path t u outcome? none
  | approved {current : Text} {page : Page} {result : Except OsError Unit}
      {listed? : Option BackupEntry} (hread : reading faults here t path = .ok current)
      (h : Changes template templateName path current page)
      (hwrites : Writes settings faults run? here id path (merge template page).text t u result
        listed?) :
      Comes settings faults template templateName run? here id path t u
        (some (verdict settings path (merge template page).changes result)) listed?

theorem Shelved.changes (ht : t.WellFormed) (h : Shelved settings faults run? here id path t u listed?) :
    Tree.Changes (IsAbove settings.backupRoot here id (behind settings here path))
      (IsTaken settings.backupRoot here id (behind settings here path)) t u := by
  cases h with
  | plain _ hsame =>
      subst hsame
      exact .refl ht
  | copied _ _ _ h => exact h.changes

namespace Writes

variable {result result₁ result₂ : Except OsError Unit}

theorem wakes (ht : t.WellFormed)
    (h : Writes settings faults run? here id path text t u result listed?) :
    Wakes settings here id (· = path) t u := by
  cases h with
  | refused _ _ _ hsame =>
      subst hsame
      exact .refl ht
  | @shelved t' _ h hwrites =>
      have hshelved : Wakes settings here id (· = path) t t' :=
        (h.changes ht).mono (fun loc habove => ⟨path, rfl, habove⟩)
          fun loc htaken => ⟨path, rfl, Or.inr htaken⟩
      rcases hwrites with ⟨-, rfl⟩ | ⟨-, hputs⟩
      · exact hshelved
      · exact hshelved.trans (.of_puts hshelved.wellFormed hputs ⟨path, rfl, Or.inl rfl⟩)

/-- Where the manifest of the run lies no directory is made for a copy. -/
theorem free (h : Writes settings faults run? here id path text t u result listed?)
    (hrun : run? = some id)
    (hcopy : copying faults here t path
      (kept settings.backupRoot id (behind settings here path)) = .ok ()) :
    ¬ isBelow (manifestLoc settings.backupRoot here id)
      (shelf settings.backupRoot here id (behind settings here path)) = true := by
  cases h with
  | refused _ _ hrefused => cases hcopy.symm.trans hrefused
  | shelved h =>
      cases h with
      | plain hnone => cases hnone.symm.trans hrun
      | copied _ _ _ h => exact h.free

end Writes

namespace Field

variable (h : Field settings run? here id paths t)

include h

/-- What a file and its copy are once it has been backed up is settled before any other is. -/
theorem shelved_eq (hpath : path ∈ paths)
    (hwakes : Wakes settings here id (Others here paths path) t t')
    (hshelved : Shelved settings faults run? here id path t' u listed?) :
    listed? = run?.map (entryFor settings.backupRoot here settings.siteRoot · path) ∧
      u.bytes? (place here path) = t.bytes? (place here path) ∧
      u.bytes? (shelf settings.backupRoot here id (behind settings here path)) =
        if run?.isSome = true then
          if t.isDir here (kept settings.backupRoot id (behind settings here path)) then none
          else t.bytes? (place here path)
        else t.bytes? (shelf settings.backupRoot here id (behind settings here path)) := by
  have hsource : t'.bytes? (place here path) = t.bytes? (place here path) :=
    h.bytes?_eq hpath (Or.inl rfl) hwakes
  cases hshelved with
  | plain hrun hsame =>
      subst hrun hsame
      exact ⟨rfl, hsource, h.bytes?_eq hpath (Or.inr rfl) hwakes⟩
  | @copied bytes hrun hread _ htakes =>
      subst hrun
      refine ⟨rfl, (htakes.changes.bytes? fun htaken => ?_).trans hsource, ?_⟩
      · exact (h.candidates path hpath).outside htaken.within
      · rw [Option.isSome_some, if_pos rfl, htakes.holds, h.isDir_eq rfl hpath hwakes,
          Tree.bytes?_eq_some.mpr (Tree.read_eq_ok.mp ((h.read_eq hpath hwakes).symm.trans hread)).2]

/-- Writing a file comes to the same whatever has been done for others. -/
theorem writes_alike {result₁ result₂ : Except OsError Unit} (hpath : path ∈ paths)
    (hwakes₁ : Wakes settings here id (Others here paths path) t t₁)
    (hwakes₂ : Wakes settings here id (Others here paths path) t t₂)
    (h₁ : Writes settings faults run? here id path text t₁ u₁ result₁ entry₁?)
    (h₂ : Writes settings faults run? here id path text t₂ u₂ result₂ entry₂?) :
    result₁ = result₂ ∧ entry₁? = entry₂? ∧
      ∀ loc, IsSpot settings here id path loc → u₁.bytes? loc = u₂.bytes? loc := by
  have hcopying : run? = some id →
      copying faults here t₁ path (kept settings.backupRoot id (behind settings here path)) =
        copying faults here t₂ path (kept settings.backupRoot id (behind settings here path)) := by
    intro hrun
    refine h.copying_alike hrun hpath hwakes₁ hwakes₂ ?_
    rintro t' (rfl | rfl) hcopy
    · exact h₁.free hrun hcopy
    · exact h₂.free hrun hcopy
  cases h₁ with
  | refused e₁ hrun hcopy₁ hsame₁ =>
      subst hsame₁
      have hrefused := (hcopying hrun).symm.trans hcopy₁
      cases h₂ with
      | refused e₂ _ hcopy₂ hsame₂ =>
          subst hsame₂
          refine ⟨hrefused.symm.trans hcopy₂, rfl, fun loc hspot => ?_⟩
          exact (h.bytes?_eq hpath hspot hwakes₁).trans (h.bytes?_eq hpath hspot hwakes₂).symm
      | shelved hshelved =>
          cases hshelved with
          | plain hnone => cases hnone.symm.trans hrun
          | copied _ _ hcopy₂ => cases hrefused.symm.trans hcopy₂
  | @shelved t₁' _ hshelved₁ hwrites₁ =>
      cases h₂ with
      | refused e₂ hrun hcopy₂ =>
          cases hshelved₁ with
          | plain hnone => cases hnone.symm.trans hrun
          | copied _ _ hcopy₁ => cases hcopy₁.symm.trans ((hcopying hrun).trans hcopy₂)
      | @shelved t₂' _ hshelved₂ hwrites₂ =>
          obtain ⟨hentry₁, hfile₁, hcopy₁⟩ := h.shelved_eq hpath hwakes₁ hshelved₁
          obtain ⟨hentry₂, hfile₂, hcopy₂⟩ := h.shelved_eq hpath hwakes₂ hshelved₂
          have hsame : ∀ loc, IsSpot settings here id path loc → t₁'.bytes? loc = t₂'.bytes? loc := by
            rintro loc (rfl | rfl)
            · exact hfile₁.trans hfile₂.symm
            · exact hcopy₁.trans hcopy₂.symm
          refine ⟨rfl, hentry₁.trans hentry₂.symm, fun loc hspot => ?_⟩
          rcases hwrites₁ with ⟨hfault, rfl⟩ | ⟨hfault, hputs₁⟩
          · obtain ⟨-, rfl⟩ := hwrites₂.resolve_right fun hwrites => hwrites.1 hfault
            exact hsame loc hspot
          · obtain ⟨-, hputs₂⟩ := hwrites₂.resolve_left fun hwrites => hfault hwrites.1
            rw [hputs₁.bytes? (hshelved₁.changes hwakes₁.wellFormed).wellFormed,
              hputs₂.bytes? (hshelved₂.changes hwakes₂.wellFormed).wellFormed, hsame loc hspot]

end Field

/-- What comes of a file without asking is settled by what is read. -/
theorem Unproposed.unique {job : Job Sim} {read : Except OsError Text}
    (h₁ : Unproposed job template templateName path read outcome₁?)
    (h₂ : Unproposed job template templateName path read outcome₂?) : outcome₁? = outcome₂? := by
  cases h₁ with
  | unreadable e =>
      cases h₂
      rfl
  | malformed current fault hbuild =>
      cases h₂ with
      | malformed _ fault' hbuild' => rw [Except.error.inj (hbuild.symm.trans hbuild')]
      | foreign _ page' hbuild' => cases hbuild.symm.trans hbuild'
      | unchanged _ page' hbuild' => cases hbuild.symm.trans hbuild'
  | foreign current page hbuild hname =>
      cases h₂ with
      | malformed _ fault' hbuild' => cases hbuild.symm.trans hbuild'
      | foreign => rfl
      | unchanged _ page' hbuild' hname' =>
          exact absurd (Except.ok.inj (hbuild.symm.trans hbuild') ▸ hname') hname
  | unchanged current page hbuild hname =>
      cases h₂ with
      | malformed _ fault' hbuild' => cases hbuild.symm.trans hbuild'
      | foreign _ page' hbuild' hname' =>
          exact absurd (Except.ok.inj (hbuild.symm.trans hbuild') ▸ hname) hname'
      | unchanged _ page' hbuild' => rw [Except.ok.inj (hbuild.symm.trans hbuild')]

theorem Changes.not_unproposed {job : Job Sim} {current : Text} {page : Page}
    (h : Changes template templateName path current page) :
    ¬ Unproposed job template templateName path (.ok current) outcome? := by
  intro hpassed
  cases hpassed with
  | malformed _ fault' hbuild => cases h.build.symm.trans hbuild
  | foreign _ page' hbuild hname =>
      exact hname (Except.ok.inj (h.build.symm.trans hbuild) ▸ h.name)
  | unchanged _ page' hbuild _ hsame =>
      obtain rfl := Except.ok.inj (h.build.symm.trans hbuild)
      exact h.differs hsame

namespace Comes

theorem wakes (ht : t.WellFormed)
    (h : Comes settings faults template templateName run? here id path t u outcome? listed?) :
    Wakes settings here id (· = path) t u := by
  cases h with
  | passed _ hsame =>
      subst hsame
      exact .refl ht
  | approved _ _ hwrites => exact hwrites.wakes ht

theorem path_eq {outcome : Outcome}
    (h : Comes settings faults template templateName run? here id path t u (some outcome) listed?) :
    outcome.path = settings.display path := by
  cases h with
  | passed h =>
      generalize reading faults here t path = read at h
      cases h <;> rfl
  | @approved _ _ result => cases result <;> rfl

end Comes

/-- What comes of a file is the same whatever has been done for others. -/
theorem Field.comes_alike (h : Field settings run? here id paths t) (hpath : path ∈ paths)
    (hwakes₁ : Wakes settings here id (Others here paths path) t t₁)
    (hwakes₂ : Wakes settings here id (Others here paths path) t t₂)
    (h₁ : Comes settings faults template templateName run? here id path t₁ u₁ outcome₁? entry₁?)
    (h₂ : Comes settings faults template templateName run? here id path t₂ u₂ outcome₂? entry₂?) :
    outcome₁? = outcome₂? ∧ entry₁? = entry₂? ∧
      ∀ loc, IsSpot settings here id path loc → u₁.bytes? loc = u₂.bytes? loc := by
  have hreading : reading faults here t₁ path = reading faults here t₂ path := by
    rw [reading, reading, h.read_eq hpath hwakes₁, h.read_eq hpath hwakes₂]
  cases h₁ with
  | passed hpassed₁ hsame₁ =>
      subst hsame₁
      cases h₂ with
      | passed hpassed₂ hsame₂ =>
          subst hsame₂
          refine ⟨(hreading ▸ hpassed₁).unique hpassed₂, rfl, fun loc hspot => ?_⟩
          exact (h.bytes?_eq hpath hspot hwakes₁).trans (h.bytes?_eq hpath hspot hwakes₂).symm
      | approved hread hchanges =>
          rw [hreading, hread] at hpassed₁
          exact absurd hpassed₁ hchanges.not_unproposed
  | approved hread₁ hchanges₁ hwrites₁ =>
      rw [hreading] at hread₁
      cases h₂ with
      | passed hpassed₂ =>
          rw [hread₁] at hpassed₂
          exact absurd hpassed₂ hchanges₁.not_unproposed
      | approved hread₂ hchanges₂ hwrites₂ =>
          obtain rfl := Except.ok.inj (hread₁.symm.trans hread₂)
          obtain rfl := Except.ok.inj (hchanges₁.build.symm.trans hchanges₂.build)
          obtain ⟨rfl, hrest⟩ := h.writes_alike hpath hwakes₁ hwakes₂ hwrites₁ hwrites₂
          exact ⟨rfl, hrest⟩

end Run

end Stencil

import Stencil.Backup.Runs
import Stencil.Moment
import Stencil.Proofs.Disk.Reach

/-!
# Where backups lie

The last manifest lies at the backup root, and everything else that a run keeps lies in a directory
there, which has the name of the run (`exists_location`). Names of runs are single components
(`isName_runName`), so none of this can be anywhere else.
-/

namespace Stencil

open Stencil.Path (IsPart parentName)
open Stencil.Tree (place)

namespace Path

/-! ## Names -/

/-- A glyph that means nothing in a path. -/
def IsPlain (g : Glyph) : Prop := g ≠ slash ∧ g ≠ .char '.'

instance (g : Glyph) : Decidable (IsPlain g) := inferInstanceAs (Decidable (_ ∧ _))

theorem isName_of_plain {part : Text} (hne : part ≠ []) (h : ∀ g ∈ part, IsPlain g) :
    IsName part := by
  have hdot : .char '.' ∉ part := fun hmem => (h _ hmem).2 rfl
  refine ⟨⟨hne, ?_, fun hmem => (h _ hmem).1 rfl⟩, ?_⟩
  · rintro rfl
    exact hdot (by decide)
  · rintro rfl
    exact hdot (by decide)

theorem isPlain_digitChar (d : Nat) : IsPlain (.char (Nat.digitChar d)) := by
  by_cases hd : d < 16
  · revert d
    decide
  · have hchar : Nat.digitChar d = '*' := by
      unfold Nat.digitChar
      repeat rw [if_neg (by omega)]
    rw [hchar]
    decide

end Path

open Stencil.Path (IsName IsPlain)

namespace Text

theorem isPlain_of_mem_join {between : Text} {parts : List Text} {g : Glyph}
    (hbetween : ∀ g ∈ between, IsPlain g) (hparts : ∀ part ∈ parts, ∀ g ∈ part, IsPlain g)
    (hg : g ∈ join between parts) : IsPlain g := by
  induction parts with
  | nil => cases hg
  | cons part parts ih =>
      cases parts with
      | nil => exact hparts part List.mem_cons_self g hg
      | cons next parts =>
          rw [join, List.append_assoc] at hg
          · rcases List.mem_append.mp hg with hg | hg
            · exact hparts part List.mem_cons_self g hg
            · rcases List.mem_append.mp hg with hg | hg
              · exact hbetween g hg
              · exact ih (fun part hpart => hparts part (List.mem_cons_of_mem _ hpart)) hg
          · exact List.cons_ne_nil _ _

theorem mem_toDigitsCore {base fuel n : Nat} {acc : List Char} {c : Char}
    (h : c ∈ Nat.toDigitsCore base fuel n acc) : c ∈ acc ∨ ∃ d, c = Nat.digitChar d := by
  induction fuel generalizing n acc with
  | zero => exact Or.inl h
  | succ fuel ih =>
      have hcons : ∀ d, c ∈ Nat.digitChar d :: acc → c ∈ acc ∨ ∃ d, c = Nat.digitChar d := by
        intro d hc
        rcases List.mem_cons.mp hc with rfl | hc
        · exact Or.inr ⟨d, rfl⟩
        · exact Or.inl hc
      rw [Nat.toDigitsCore] at h
      split at h
      · exact hcons _ h
      · rcases ih h with h | h
        · exact hcons _ h
        · exact Or.inr h

/-- Numbers are written with digits and filled up with zeros. -/
theorem isPlain_of_mem_digits {base width n : Nat} {g : Glyph}
    (h : g ∈ padZeros width ((Nat.toDigits base n).map .char)) : IsPlain g := by
  rcases List.mem_append.mp h with h | h
  · obtain rfl := (List.mem_replicate.mp h).2
    decide
  · obtain ⟨c, hc, rfl⟩ := List.mem_map.mp h
    rcases mem_toDigitsCore hc with hc | ⟨d, rfl⟩
    · cases hc
    · exact Path.isPlain_digitChar d

end Text

theorem Moment.isName_runName (m : Moment) (number : Nat) : IsName (m.runName number) := by
  have hjoin : ∀ numbers : List (Nat × Nat), ∀ g ∈ Text.join []
      (numbers.map fun number => Text.padded number.1 number.2), IsPlain g := by
    intro numbers g hg
    refine Text.isPlain_of_mem_join (by simp) (fun part hpart g hg => ?_) hg
    obtain ⟨number, -, rfl⟩ := List.mem_map.mp hpart
    exact Text.isPlain_of_mem_digits hg
  have hname : m.runName number = ("backup_" : Text) ++ (m.day [] ++ (("T" : Text) ++
      (m.clock [] ++ (("Z_" : Text) ++ Text.hexOfNat 8 number)))) := by
    simp [Moment.runName, Text.concat]
  refine Path.isName_of_plain ?_ fun g hg => ?_
  · rw [hname]
    exact List.append_ne_nil_of_left_ne_nil (by decide) _
  · rw [hname] at hg
    simp only [List.mem_append] at hg
    rcases hg with hg | hg | hg | hg | hg | hg
    · revert g
      decide
    · exact hjoin [(4, _), (2, _), (2, _)] g hg
    · revert g
      decide
    · exact hjoin [(2, _), (2, _), (2, _)] g hg
    · revert g
      decide
    · exact Text.isPlain_of_mem_digits hg

theorem Moment.runName_ne_lastFileName (m : Moment) (number : Nat) :
    m.runName number ≠ Backups.lastFileName := by
  intro heq
  have hhead : some (Glyph.char 'b') = some (.char 'l') := congrArg List.head? heq
  exact absurd hhead (by decide)

namespace Backups

variable {root site path : Path} {here : Loc} {run : Text} {parts : List Text}

/-! ## Below the backup root -/

theorem isName_lastFileName : IsName lastFileName := ⟨by decide, by decide⟩

theorem lastPath_eq (root : Path) : lastPath root = ⟨root.root, root.parts ++ [lastFileName]⟩ :=
  Path.child_of_isPart root isName_lastFileName.isPart

theorem place_lastPath (here : Loc) (root : Path) :
    place here (lastPath root) = place here root ++ [lastFileName] := by
  rw [lastPath_eq, Tree.place_append here root]
  exact fun part hpart => List.mem_singleton.mp hpart ▸ isName_lastFileName

/-- Nothing that has the name of a run in it is the last manifest. -/
theorem ne_place_lastPath (here : Loc) (root : Path) (hrun : run ≠ lastFileName) :
    place here root ++ run :: parts ≠ place here (lastPath root) := by
  rw [place_lastPath]
  intro heq
  exact hrun (List.cons.inj (List.append_cancel_left heq)).1

/-- What a run keeps: these components behind its name. -/
def kept (root : Path) (run : Text) (parts : List Text) : Path :=
  ⟨root.root, root.parts ++ run :: parts⟩

theorem runDir_eq (root : Path) (hrun : IsName run) : runDir root run = kept root run [] :=
  Path.child_of_isPart root hrun.isPart

theorem place_kept (here : Loc) (root : Path) (hrun : IsName run)
    (h : ∀ part ∈ parts, IsName part) :
    place here (kept root run parts) = place here root ++ run :: parts := by
  refine Tree.place_append here root fun part hpart => ?_
  rcases List.mem_cons.mp hpart with rfl | hpart
  · exact hrun
  · exact h part hpart

theorem child_kept {name : Text} (hname : IsName name) :
    (kept root run parts).child name = kept root run (parts ++ [name]) := by
  rw [Path.child_of_isPart _ hname.isPart, kept, kept, List.append_assoc, List.cons_append]

/-- The name of the manifest that a run keeps. -/
def manifestName (run : Text) : Text := Text.concat ["manifest_", run, ".json"]

theorem isName_manifestName (hrun : IsName run) : IsName (manifestName run) := by
  have hname : manifestName run = ("manifest_" : Text) ++ (run ++ (".json" : Text)) := by
    simp [manifestName, Text.concat]
  have hslash : Path.slash ∉ manifestName run := by
    rw [hname, List.mem_append, List.mem_append, not_or, not_or]
    exact ⟨by decide, hrun.isPart.2.2, by decide⟩
  have hhead : (manifestName run).head? = some (.char 'm') := by
    rw [hname]
    rfl
  refine ⟨⟨fun heq => ?_, fun heq => ?_, hslash⟩, fun heq => ?_⟩
  · rw [heq] at hhead
    cases hhead
  · rw [heq] at hhead
    exact absurd hhead (by decide)
  · rw [heq] at hhead
    exact absurd hhead (by decide)

theorem runManifestPath_eq (root : Path) (hrun : IsName run) :
    runManifestPath root run = kept root run [manifestName run] := by
  rw [runManifestPath, runDir_eq root hrun]
  exact child_kept (isName_manifestName hrun)

/-! ## Copies -/

theorem location_of_below (root : Path) (hrun : IsName run)
    (h : site.below? path = some parts) : location root site run path = kept root run parts := by
  rw [location, h]
  dsimp only
  rw [runDir_eq root hrun, kept, kept, List.append_assoc, List.singleton_append]

/-- The digest that names the directory of a file from elsewhere. -/
theorem isName_digest (bytes : Bytes) : IsName ((Sha1.hexDigest bytes).take 12) := by
  refine Path.isName_of_plain ?_ fun g hg => ?_
  · intro heq
    rw [Sha1.hexDigest] at heq
    exact List.cons_ne_nil _ _ heq
  · rw [Sha1.hexDigest, Text.hexOfBytes] at hg
    obtain ⟨b, -, hb⟩ := List.mem_flatMap.mp (List.mem_of_mem_take hg)
    rcases List.mem_cons.mp hb with rfl | hb
    · exact Path.isPlain_digitChar _
    · obtain rfl := List.mem_singleton.mp hb
      exact Path.isPlain_digitChar _

/-- Wherever a file lies, its copy is among what the run keeps, and not in the place of the directory of
the run unless the file is in that of the site. -/
theorem exists_location (root site : Path) (hrun : IsName run)
    (hpath : ∀ part ∈ path.parts, IsName part) :
    ∃ parts, location root site run path = kept root run parts ∧ (∀ part ∈ parts, IsName part) ∧
      (path.parts ≠ site.parts → parts ≠ []) := by
  cases hbelow : site.below? path with
  | some parts =>
      obtain ⟨-, hparts⟩ := Path.below?_eq_some hbelow
      refine ⟨parts, location_of_below root hrun hbelow, fun part hpart => hpath part ?_,
        fun hne heq => hne ?_⟩
      · rw [hparts]
        exact List.mem_append_right _ hpart
      · rw [hparts, heq, List.append_nil]
  | none =>
      have hexternal : IsName externalDirName := ⟨by decide, by decide⟩
      have hdir := isName_digest path.text.encode
      have hlocation : location root site run path =
          (kept root run [externalDirName, (Sha1.hexDigest path.text.encode).take 12]).child
            path.name := by
        rw [location, hbelow]
        dsimp only
        rw [runDir_eq root hrun, child_kept hexternal, child_kept hdir]
        rfl
      have hdirs : ∀ part ∈ [externalDirName, (Sha1.hexDigest path.text.encode).take 12],
          IsName part := by
        intro part hpart
        rcases List.mem_cons.mp hpart with rfl | hpart
        · exact hexternal
        · exact List.mem_singleton.mp hpart ▸ hdir
      rw [hlocation, Path.name]
      cases hlast : path.parts.getLast? with
      | none =>
          -- the root has no name, and so the copy goes by the digest
          refine ⟨_, ?_, hdirs, fun _ => List.cons_ne_nil _ _⟩
          rw [Option.getD_none, Path.child]
          show (kept root run _).join ⟨.none, []⟩ = _
          rw [Path.join, if_neg (by decide), kept, List.append_nil]
      | some name =>
          have hname := hpath name (List.mem_of_getLast? hlast)
          refine ⟨_, child_kept hname, fun part hpart => ?_, fun _ => List.cons_ne_nil _ _⟩
          rcases List.mem_append.mp hpart with hpart | hpart
          · exact hdirs part hpart
          · exact List.mem_singleton.mp hpart ▸ hname

end Backups

end Stencil

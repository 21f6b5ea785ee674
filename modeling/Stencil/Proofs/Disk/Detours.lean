import Stencil.Proofs.Disk.Changes

/-!
# Where writing goes astray

Before a file is written the directories above it are made. A path that turns back in one that was not
there leads to nothing at first, and afterwards to what lies beyond: a file that is written over could be
seen before unless the way to it makes such a detour (`isThere_or_isDetour`). A copy that is made over a
directory goes into it (`copy_lands`).
-/

namespace Stencil

open Stencil.Path (collapse parentName)

namespace Tree

variable {t : Tree} {here loc : Loc} {p : Path} {parts : List Text}

/-! ## Detours -/

/-- The way along a path turns back in a directory that is not there. -/
def IsDetour (t : Tree) (here : Loc) (p : Path) : Prop :=
  ∃ above, above ++ [parentName] <+: p.parts ∧ t.node? (collapse (start here p) above) = none

/-- A path without double dots turns back nowhere. -/
theorem not_isDetour_of_not_mem (h : parentName ∉ p.parts) : ¬ IsDetour t here p := by
  rintro ⟨above, hprefix, -⟩
  have hmem := hprefix.subset (List.mem_append_right above List.mem_cons_self)
  exact h hmem

/-- Components lead to what lies where they point, or they turn back in what is no directory. -/
theorem follow_or_turn (ht : t.WellFormed) (hnode : t.node? (collapse loc parts) ≠ none) :
    t.follow loc parts = .ok (collapse loc parts) ∨
      ∃ above, above ++ [parentName] <+: parts ∧ t.node? (collapse loc above) ≠ some .dir := by
  induction parts generalizing loc with
  | nil => exact Or.inl rfl
  | cons part parts ih =>
      rw [collapse_cons] at hnode ⊢
      by_cases hdir : t.node? loc = some .dir
      · refine (ih hnode).imp (fun h => follow_cons.mpr ⟨hdir, h⟩) ?_
        rintro ⟨above, hprefix, hturn⟩
        exact ⟨part :: above, List.cons_prefix_cons.mpr ⟨rfl, hprefix⟩, by rwa [collapse_cons]⟩
      · by_cases hpart : part = parentName
        · exact Or.inr ⟨[], List.cons_prefix_cons.mpr ⟨hpart.symm, List.nil_prefix⟩, hdir⟩
        · -- where no directory is nothing lies below it
          have hnone : t.node? (into loc part) = none := by
            rw [into, if_neg hpart]
            exact not_not.mp fun hsome => hdir (ht loc part hsome)
          rcases ih hnode with hfollow | ⟨above, hprefix, hturn⟩
          · cases parts with
            | nil => exact absurd hnone hnode
            | cons next parts =>
                rw [(follow_cons.mp hfollow).1] at hnone
                cases hnone
          · exact Or.inr ⟨part :: above, List.cons_prefix_cons.mpr ⟨rfl, hprefix⟩,
              by rwa [collapse_cons]⟩

/-- A file that is written over could be seen before, unless the way to it makes a detour. -/
theorem isThere_or_isDetour (ht : t.WellFormed) {tag : Text} {bytes : Bytes}
    (hnode : t.node? (place here p) ≠ none) (hdone : (t.replace here tag p bytes).2 = .ok ()) :
    t.isThere here p = true ∨ IsDetour t here p := by
  rcases follow_or_turn ht hnode with hfollow | ⟨above, hprefix, hturn⟩
  · obtain ⟨node, hnode⟩ := Option.ne_none_iff_exists'.mp hnode
    rw [isThere, look_eq_ok.mpr ⟨rfl, hfollow, hnode⟩]
    exact Or.inl rfl
  · obtain ⟨hchanges, hread⟩ := replace_changes ht here tag p bytes
    obtain ⟨hlocate, -⟩ := read_eq_ok.mp (hread hdone)
    -- afterwards the path can be followed, so a directory has been made where it turns back
    have hmade : (t.replace here tag p bytes).1.node? (collapse (start here p) above) = some .dir := by
      refine dirs_of_follow hlocate ((List.prefix_append _ _).trans hprefix) fun heq => ?_
      have hlength := hprefix.length_le
      rw [← heq, List.length_append, List.length_singleton] at hlength
      omega
    refine Or.inr ⟨above, hprefix, node?_eq_none_of hturn (not_not.mp fun hfile => ?_)⟩
    refine hchanges.files _ hfile ?_
    rw [bytes?, hmade]

/-! ## Copies -/

/-- Where a copy may land that is made of a file: over the file or, where there is a directory, in it. -/
def Lands (here : Loc) (t : Tree) (target : Path) (loc : Loc) : Prop :=
  loc = place here target ∨ t.node? (place here target) = some .dir ∧
    ∃ name, loc = place here target ++ [name]

theorem copy_lands (ht : t.WellFormed) (here : Loc) {source : Path} (hsource : source.IsProper)
    (target : Path) : Changes (fun _ => True) (Lands here (t.copy here source target).1 target) t
      (t.copy here source target).1 := by
  rcases copy_changes ht here hsource target with
    ⟨e, -, hchanges⟩ | ⟨bytes, goal, -, -, hgoal, -, hchanges, hbytes⟩
  · exact hchanges.mono (fun _ _ => trivial) fun _ => False.elim
  · refine hchanges.mono (fun _ _ => trivial) ?_
    rintro loc rfl
    refine hgoal.imp_right ?_
    rintro ⟨-, name, rfl⟩
    refine ⟨hchanges.wellFormed _ name ?_, name, rfl⟩
    rw [bytes?_eq_some.mp hbytes]
    exact Option.some_ne_none _

end Tree

end Stencil

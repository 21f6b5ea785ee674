import Stencil.Proofs.Tag.Cuts
import Stencil.Proofs.Text.Rules

/-!
# The grammar of tags

Which texts are tags, said without a search (`IsStartTag`, `IsTag`). The two searches for tags read by
these rules (`follows_startForm`, `follows_anyForm`), so what they find in a text are the matches of a
rule (`Form.Follows.marks_iff`), and a name picks some of them (`startsAs`, `closesAs`).
-/

namespace Stencil

namespace Tag

/-- What follows the opening of a tag: a run of name glyphs and a rest up to the first `>`. -/
def IsNamed (body name : Text) : Prop :=
  ∃ run rest, body = run ++ (rest ++ [.char '>']) ∧ IsRun run ∧ IsRest rest ∧ name = nameOfRun run

/-- A start tag, with its name as written. -/
def IsStartTag : Rule Text := fun read name =>
  ∃ body, read = .char '<' :: body ∧ IsNamed body name

/-- A tag of either sort: whether it closes, and its name as written. -/
def IsTag : Rule (Bool × Text) := fun read value =>
  ∃ body, read = .char '<' :: (if value.1 then .char '/' :: body else body) ∧ IsNamed body value.2

/-- Whether the name of a start tag is this one in lower case. -/
def startsAs (tag name : Text) : Bool := Text.lower name = tag

/-- Whether a tag closes, and its name is this one in lower case. -/
def closesAs (tag : Text) (value : Bool × Text) : Bool := value.1 && Text.lower value.2 = tag

theorem nameAt?_eq_some_iff_isNamed {t name after : Text} :
    nameAt? t = some (name, after) ↔ ∃ body, t = body ++ after ∧ IsNamed body name := by
  rw [nameAt?_eq_some_iff]
  constructor
  · rintro ⟨run, rest, rfl, hrun, hrest, hname⟩
    exact ⟨_, by simp, run, rest, rfl, hrun, hrest, hname⟩
  · rintro ⟨_, rfl, run, rest, rfl, hrun, hrest, hname⟩
    exact ⟨run, rest, by simp, hrun, hrest, hname⟩

theorem follows_startForm : startForm.Follows IsStartTag where
  reads_iff := by
    intro before t name after
    simp only [startForm_eq_some_iff, nameAt?_eq_some_iff_isNamed]
    constructor
    · rintro ⟨_, rfl, body, rfl, hname⟩
      exact ⟨_, rfl, body, rfl, hname⟩
    · rintro ⟨_, rfl, body, rfl, hname⟩
      exact ⟨_, rfl, body, rfl, hname⟩
  ne_nil := by
    rintro _ name ⟨body, rfl, -⟩
    exact List.cons_ne_nil _ _

theorem follows_anyForm : anyForm.Follows IsTag where
  reads_iff := by
    rintro before t ⟨closes, name⟩ after
    simp only [anyForm_eq_some_iff, nameAt?_eq_some_iff_isNamed]
    constructor
    · rintro ⟨_, rfl, body, rfl, hname⟩
      exact ⟨_, by cases closes <;> rfl, body, rfl, hname⟩
    · rintro ⟨_, rfl, body, rfl, hname⟩
      exact ⟨_, by cases closes <;> rfl, body, rfl, hname⟩
  ne_nil := by
    rintro _ value ⟨body, rfl, -⟩
    exact List.cons_ne_nil _ _

theorem closingsOf_eq_closesAs (tag t : Text) : closingsOf tag t =
    ((anyForm.findAll t).filter fun mark => closesAs tag mark.value).map Found.start := by
  simp only [closingsOf_eq, Prod.mk.injEq, closesAs, Bool.decide_and, Bool.decide_eq_true]

end Tag

end Stencil

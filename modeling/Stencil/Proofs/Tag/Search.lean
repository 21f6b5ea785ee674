import Stencil.Tag
import Stencil.Proofs.Marker.Kinds
import Stencil.Proofs.Text.Forms

/-!
# What a tag is made of

A tag is `<`, perhaps a slash, the longest run of name glyphs, and whatever comes before the next
`>` (`nameAt?_eq_some_iff`). Two consequences place what is written beside tags: text put behind a
start tag has a `>` right before it (`startsOf_split`), and text put in front of a closing tag has
`</` right behind it (`closingsOf_split`).
-/

namespace Stencil

namespace Tag

/-- A run of name glyphs, a letter first. -/
structure IsRun (run : Text) : Prop where
  continues : ∀ g ∈ run.tail, continuesName g = true
  letter : ∃ g, run.head? = some g ∧ g.isLetter = true

/-- The name in a run: what remains without the glyphs at its end that are in no word. -/
def nameOfRun (run : Text) : Text := (run.reverse.dropWhile fun g => !g.isWord).reverse

/-- The rest of a tag up to `>`: it does not go on with the name. -/
structure IsRest (rest : Text) : Prop where
  no_end : Glyph.char '>' ∉ rest
  ends_name : ∀ g, rest.head? = some g → continuesName g = false

theorem nameAt?_eq_some_iff {t name after : Text} :
    nameAt? t = some (name, after) ↔
      ∃ run rest, t = run ++ (rest ++ .char '>' :: after) ∧ IsRun run ∧ IsRest rest ∧
        name = nameOfRun run := by
  cases t with
  | nil =>
      refine ⟨nofun, ?_⟩
      rintro ⟨run, rest, heq, ⟨-, g, hg, -⟩, -⟩
      cases run <;> simp at hg heq
  | cons g t =>
      constructor
      · intro h
        rw [nameAt?] at h
        split at h
        · next hletter =>
          obtain ⟨⟨rest, after'⟩, hrest, heq⟩ := Option.map_eq_some_iff.mp h
          obtain ⟨rfl, rfl⟩ := Prod.mk.inj heq
          obtain ⟨hsplit, hnot⟩ := Text.upTo?_eq_some_iff.mp hrest
          refine ⟨g :: t.takeWhile continuesName, rest, ?_, ⟨?_, g, rfl, hletter⟩, ⟨hnot, ?_⟩, rfl⟩
          · rw [← hsplit, List.cons_append, List.takeWhile_append_dropWhile]
          · exact List.all_eq_true.mp List.all_takeWhile
          · intro a ha
            have hhead := List.head?_dropWhile_not continuesName t
            rw [hsplit] at hhead
            cases rest with
            | nil => cases ha
            | cons b rest =>
                obtain rfl : b = a := Option.some.inj ha
                simpa using hhead
        · cases h
      · rintro ⟨run, rest, heq, ⟨hcont, a, ha, hletter⟩, hrest, rfl⟩
        obtain ⟨run, rfl⟩ : ∃ run', run = a :: run' := by
          cases run with
          | nil => cases ha
          | cons b run => exact ⟨run, by rw [Option.some.inj ha]⟩
        obtain ⟨rfl, rfl⟩ := List.cons.inj heq
        have hstop : ∀ b, (rest ++ Glyph.char '>' :: after).head? = some b →
            continuesName b = false := by
          intro b hb
          cases rest with
          | nil =>
              obtain rfl : Glyph.char '>' = b := Option.some.inj hb
              decide +kernel
          | cons c rest => exact hrest.ends_name b hb
        rw [List.tail_cons] at hcont
        rw [List.append_eq, nameAt?, if_pos hletter, Text.takeWhile_append_of_stop hcont hstop,
          Text.dropWhile_append_of_stop hcont hstop,
          Text.upTo?_eq_some_iff.mpr ⟨rfl, hrest.no_end⟩]
        rfl

theorem startForm_eq_some_iff {before : Option Glyph} {t name after : Text} :
    startForm before t = some (name, after) ↔
      ∃ rest, t = .char '<' :: rest ∧ nameAt? rest = some (name, after) := by
  unfold startForm
  split
  · next rest =>
    constructor
    · exact fun h => ⟨rest, rfl, h⟩
    · rintro ⟨rest', heq, h⟩
      rw [(List.cons.inj heq).2]
      exact h
  · next hne =>
    refine ⟨nofun, ?_⟩
    rintro ⟨rest, rfl, -⟩
    exact absurd rfl (hne rest)

/-- No name begins with a slash. -/
theorem nameAt?_slash (t : Text) : nameAt? (.char '/' :: t) = none := by
  rw [nameAt?, if_neg (by decide)]

theorem anyForm_eq_some_iff {before : Option Glyph} {t name after : Text} {closes : Bool} :
    anyForm before t = some ((closes, name), after) ↔
      ∃ rest, t = .char '<' :: (if closes then .char '/' :: rest else rest) ∧
        nameAt? rest = some (name, after) := by
  unfold anyForm
  split
  · next rest =>
    constructor
    · intro h
      obtain ⟨⟨name', after'⟩, hname, heq⟩ := Option.map_eq_some_iff.mp h
      simp only [Prod.mk.injEq] at heq
      obtain ⟨⟨rfl, rfl⟩, rfl⟩ := heq
      exact ⟨rest, rfl, hname⟩
    · rintro ⟨rest', heq, hname⟩
      cases closes with
      | true =>
          simp only [if_true, List.cons.injEq, true_and] at heq
          subst heq
          rw [hname]
          rfl
      | false =>
          simp only [Bool.false_eq_true, if_false, List.cons.injEq, true_and] at heq
          subst heq
          rw [nameAt?_slash] at hname
          cases hname
  · next rest hslash =>
    constructor
    · intro h
      obtain ⟨⟨name', after'⟩, hname, heq⟩ := Option.map_eq_some_iff.mp h
      simp only [Prod.mk.injEq] at heq
      obtain ⟨⟨rfl, rfl⟩, rfl⟩ := heq
      exact ⟨rest, rfl, hname⟩
    · rintro ⟨rest', heq, hname⟩
      cases closes with
      | true =>
          simp only [if_true, List.cons.injEq, true_and] at heq
          exact absurd heq (hslash rest')
      | false =>
          simp only [Bool.false_eq_true, if_false, List.cons.injEq, true_and] at heq
          subst heq
          rw [hname]
          rfl
  · next hclosing hstart =>
    refine ⟨nofun, ?_⟩
    rintro ⟨rest, rfl, -⟩
    exact absurd rfl (hstart _)

/-- What a name and its tag read ends with `>`. -/
theorem nameAt?_split {t name after : Text} (h : nameAt? t = some (name, after)) :
    ∃ read, t = read ++ .char '>' :: after := by
  obtain ⟨run, rest, rfl, -⟩ := nameAt?_eq_some_iff.mp h
  exact ⟨run ++ rest, by simp⟩

theorem isReader_startForm : startForm.IsReader := by
  intro before t name after h
  obtain ⟨rest, rfl, hname⟩ := startForm_eq_some_iff.mp h
  obtain ⟨read, rfl⟩ := nameAt?_split hname
  exact ⟨.char '<' :: (read ++ [.char '>']), by simp, by simp⟩

theorem isReader_anyForm : anyForm.IsReader := by
  rintro before t ⟨closes, name⟩ after h
  obtain ⟨rest, rfl, hname⟩ := anyForm_eq_some_iff.mp h
  obtain ⟨read, rfl⟩ := nameAt?_split hname
  cases closes with
  | true => exact ⟨.char '<' :: .char '/' :: (read ++ [.char '>']), by simp, by simp⟩
  | false => exact ⟨.char '<' :: (read ++ [.char '>']), by simp, by simp⟩

/-- Right behind a start tag stands what follows a `>`. -/
theorem startsOf_split {name t : Text} {offset : Nat} (h : offset ∈ startsOf name t) :
    ∃ u v, t = (u ++ [.char '>']) ++ v ∧ offset = (u ++ [Glyph.char '>']).length := by
  obtain ⟨found, hfound, rfl⟩ := List.mem_map.mp h
  obtain ⟨found', hfound', rfl⟩ := List.mem_map.mp (List.mem_filter.mp hfound).1
  obtain ⟨u, before, read, rest, rfl, -, hread, hstart, hstop⟩ :=
    Form.exists_split_of_mem_findFrom isReader_startForm hfound'
  obtain ⟨inner, heq, hname⟩ := startForm_eq_some_iff.mp hread
  obtain ⟨read', rfl⟩ := nameAt?_split hname
  obtain rfl : read = .char '<' :: (read' ++ [.char '>']) :=
    List.append_cancel_right (heq.trans (by simp) : read ++ rest =
      (.char '<' :: (read' ++ [.char '>'])) ++ rest)
  refine ⟨u ++ .char '<' :: read', rest, by simp, ?_⟩
  simp only [hstop, hstart, List.length_append, List.length_cons, List.length_nil]
  omega

/-- A closing tag begins with `</`. -/
theorem closingsOf_split {name t : Text} {offset : Nat} (h : offset ∈ closingsOf name t) :
    ∃ u v, t = u ++ .char '<' :: .char '/' :: v ∧ offset = u.length := by
  obtain ⟨found, hfound, rfl⟩ := List.mem_map.mp h
  obtain ⟨hmem, hvalue⟩ := List.mem_filter.mp hfound
  obtain ⟨found', hfound', rfl⟩ := List.mem_map.mp hmem
  obtain ⟨u, before, read, rest, rfl, -, hread, hstart, -⟩ :=
    Form.exists_split_of_mem_findFrom isReader_anyForm hfound'
  have hcloses : found'.value.1 = true := by simpa using (Prod.mk.inj (of_decide_eq_true hvalue)).1
  obtain ⟨inner, heq, -⟩ := anyForm_eq_some_iff.mp hread
  rw [hcloses, if_pos rfl] at heq
  exact ⟨u, inner, by rw [heq], by simpa using hstart⟩

end Tag

end Stencil

import Stencil.Text.Basic

/-!
# Patterns of paths

In a pattern `*` stands for any text, slashes included, `?` for any one glyph, and a bracket for
one glyph of a class. Everything else stands for itself, and so does a bracket that is never
closed. Upper and lower case differ.
-/

namespace Stencil.Glob

/-- A part of a bracket: the glyphs from `low` to `high`. -/
structure Span where
  low : Glyph
  high : Glyph
deriving DecidableEq, Repr

/-- What a pattern asks of one place. -/
inductive Item where
  /-- Any text. -/
  | star
  /-- Any one glyph. -/
  | any
  | literal (g : Glyph)
  /-- One glyph inside the spans, or outside all of them. -/
  | among (negated : Bool) (spans : List Span)
deriving DecidableEq, Repr

/-! ## Brackets -/

/-- The inside of a bracket that has just been opened, and what follows its closing. The closing
is the first `]` that is not the first member. -/
def bracket? (t : Text) : Option (Text × Text) :=
  let (sign, rest) := match t with
    | .char '!' :: rest => ([Glyph.char '!'], rest)
    | _ => ([], t)
  let (first, rest) := match rest with
    | .char ']' :: rest => ([Glyph.char ']'], rest)
    | _ => ([], rest)
  (Text.upTo? (.char ']') rest).map fun (inside, after) => (sign ++ first ++ inside, after)

/-- Cuts the inside of a bracket at the hyphens that make ranges. The first `wait` glyphs cannot be
such a hyphen, and neither can the two behind one. -/
def chunksFrom : (wait : Nat) → Text → List Text
  | _, [] => [[]]
  | wait + 1, g :: t => extend g (chunksFrom wait t)
  | 0, g :: t => if g = .char '-' then [] :: chunksFrom 2 t else extend g (chunksFrom 0 t)
where
  extend (g : Glyph) : List Text → List Text
    | [] => [[g]]
    | chunk :: chunks => (g :: chunk) :: chunks

/-- The chunks of a bracket. A hyphen at the very end belongs to the last chunk. -/
def chunks (inside : Text) : List Text :=
  let cut := chunksFrom (if inside.head? = some (.char '!') then 2 else 1) inside
  match cut.reverse with
  | [] :: last :: before => ((last ++ [.char '-']) :: before).reverse
  | _ => cut

/-- Drops each range that runs backwards, with both its ends, from the last to the first. -/
def dropBackward : List Text → List Text
  | [] => []
  | chunk :: rest =>
    match dropBackward rest with
    | [] => [chunk]
    | next :: others =>
      match chunk.getLast?, next.head? with
      | some low, some high =>
        if high.code < low.code then (chunk.dropLast ++ next.tail) :: others
        else chunk :: next :: others
      | _, _ => chunk :: next :: others

/-- The spans of chunks: each glyph by itself, and the range from the end of each chunk to the
beginning of the next. Before a chunk with nothing in front the hyphen stands for itself. -/
def spansOf : List Text → List Span
  | [] => []
  | [chunk] => chunk.map fun g => ⟨g, g⟩
  | chunk :: next :: rest =>
    let joint : List Span := match chunk.getLast?, next.head? with
      | some low, some high => [⟨low, high⟩]
      | _, _ => [⟨.char '-', .char '-'⟩]
    (chunk.map fun g => ⟨g, g⟩) ++ joint ++ spansOf (next :: rest)

/-- What the inside of a bracket asks for. With nothing left of it nothing matches, and with only
the sign `!` left everything does. -/
def bracketItem (inside : Text) : Item :=
  match dropBackward (chunks inside) with
  | (.char '!' :: chunk) :: rest =>
    if chunk.isEmpty && rest.isEmpty then .any else .among true (spansOf (chunk :: rest))
  | parts => .among false (spansOf parts)

/-! ## Patterns -/

/-- The items of a pattern, the first `skip` glyphs of which have been read already. Stars in a row
are one star. -/
def itemsFrom : (skip : Nat) → Text → List Item
  | _, [] => []
  | skip + 1, _ :: t => itemsFrom skip t
  | 0, g :: t =>
    if g = .char '*' then
      match itemsFrom 0 t with
      | .star :: items => .star :: items
      | items => .star :: items
    else if g = .char '?' then .any :: itemsFrom 0 t
    else if g = .char '[' then
      match bracket? t with
      | some (inside, after) => bracketItem inside :: itemsFrom (t.length - after.length) t
      | none => .literal g :: itemsFrom 0 t
    else .literal g :: itemsFrom 0 t

def items (pattern : Text) : List Item := itemsFrom 0 pattern

/-- Whether one glyph is what an item asks for. -/
def Item.admits : Item → Glyph → Bool
  | star, _ => false
  | any, _ => true
  | literal h, g => g = h
  | among negated spans, g =>
    negated != spans.any fun span => span.low.code ≤ g.code && g.code ≤ span.high.code

/-- For each tail of a text, whether some tail of that tail passes. -/
def someTail : List Bool → List Bool
  | [] => []
  | passes :: rest =>
    let tails := someTail rest
    (passes || tails.headD false) :: tails

/-- For each tail of a text, whether its first glyph is what an item asks for and the tail behind
it passes. -/
def stepTails (item : Item) : Text → List Bool → List Bool
  | [], _ => [false]
  | g :: t, passes => (item.admits g && passes.tail.headD false) :: stepTails item t passes.tail

/-- For each tail of a text, the whole text first and the empty one last, whether it is what the
items ask for. -/
def matchTails : List Item → Text → List Bool
  | [], t => List.replicate t.length false ++ [true]
  | .star :: items, t => someTail (matchTails items t)
  | item :: items, t => stepTails item t (matchTails items t)

@[simp] theorem length_someTail (passes : List Bool) :
    (someTail passes).length = passes.length := by
  induction passes with
  | nil => rfl
  | cons _ _ ih => simp [someTail, ih]

@[simp] theorem length_stepTails (item : Item) (t : Text) (passes : List Bool) :
    (stepTails item t passes).length = t.length + 1 := by
  induction t generalizing passes with
  | nil => rfl
  | cons _ _ ih => simp [stepTails, ih]

/-- There is one answer for each tail, the empty one included. -/
@[simp] theorem length_matchTails (items : List Item) (t : Text) :
    (matchTails items t).length = t.length + 1 := by
  induction items with
  | nil => simp [matchTails]
  | cons item items ih => cases item <;> simp [matchTails, ih]

/-- Whether a whole text is what the items ask for. -/
def matchItems (items : List Item) (t : Text) : Bool := (matchTails items t).headD false

/-- Whether a path fits a pattern. -/
def fits (pattern path : Text) : Bool := matchItems (items pattern) path

/-- Whether a path matches a pattern, where a leading `**/` may also stand for nothing, so that
files at the root are matched too. -/
def accepts (pattern path : Text) : Bool :=
  fits pattern path ||
    match Text.dropHead? "**/" pattern with
    | some rest => fits rest path
    | none => false

end Stencil.Glob

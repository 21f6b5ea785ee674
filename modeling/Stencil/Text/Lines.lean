import Stencil.Text.Basic

/-!
# Lines

Two notions of a line live side by side. A *place* in a text counts line feeds only. A *diff* is
taken over lines that end at any line break, and a carriage return right before a line feed
belongs to the same break.
-/

namespace Stencil.Text

/-- Line feed, vertical tab, form feed, carriage return, the separators of files, groups and
records, next line, and the line and paragraph separators. -/
def isLineBreak (g : Glyph) : Bool :=
  let n := g.code
  (0x0a ≤ n && n ≤ 0x0d) || (0x1c ≤ n && n ≤ 0x1e) || n == 0x85 || n == 0x2028 || n == 0x2029

/-- Whether a line ends with `g`, given what follows it. -/
def endsLine (g : Glyph) (rest : Text) : Bool :=
  isLineBreak g && !(g = .char '\r' && rest.head? = some (.char '\n'))

/-- The lines of a text, each with its break; together they are the text. -/
def lines : Text → List Text
  | [] => []
  | g :: t =>
    if endsLine g t then [g] :: lines t
    else match lines t with
      | [] => [[g]]
      | line :: rest => (g :: line) :: rest

/-- A line without the carriage returns and line feeds at its end. -/
def chomp (line : Text) : Text :=
  (line.reverse.dropWhile fun g => g = .char '\r' || g = .char '\n').reverse

end Stencil.Text

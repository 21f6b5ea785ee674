import Stencil.Document.Basic
import Stencil.Marker.Scan

/-!
# From template text to page text

The literal text of a template becomes that of a page by changing what its comments say, and
nothing else: template markers take the page's keyword of the same length, a parameter takes the
value the page gives it, and comments that describe the template itself are dropped.
-/

namespace Stencil

/-- Whether a glyph is a letter under any of its cases. The dotted and the dotless I, the long S
and the Kelvin sign count as cases of their letters. -/
def Glyph.isCaseOf (letter : Char) (g : Glyph) : Bool :=
  g.asciiLower == .char letter ||
    (letter == 'i' && (g == .char '\u0130' || g == .char '\u0131')) ||
    (letter == 's' && g == .char '\u017f') || (letter == 'k' && g == .char '\u212a')

namespace Text

/-- What follows a word at the head of a text, in any case. -/
def dropWord? : List Char → Text → Option Text
  | [], t => some t
  | _ :: _, [] => none
  | letter :: word, g :: t => if g.isCaseOf letter then dropWord? word t else none

end Text

namespace Skeleton

open Marker (Token opener closer)

/-- Whether a text begins inside a word that has begun before it. -/
def wordGoesOn : Text → Bool
  | [] => false
  | g :: _ => g.isWord

/-- What follows the keyword of a comment that describes the template. -/
def infoHead? (t : Text) : Option Text := do
  let inner ← Text.dropHead? opener t
  let rest ← Text.dropWord? "templateinfo".toList (Text.dropBlanks inner)
  if wordGoesOn rest then none else some rest

/-- A comment that describes the template, up to the first closer behind its keyword. -/
def infoForm : Form Unit := fun _ t => do
  let rest ← infoHead? t
  let (_, after) ← Text.splitAt? closer rest
  some ((), after)

/-- An equals sign, blanks allowed around it, and an opening quote; returns what follows. -/
def dropAssign? (t : Text) : Option Text :=
  match Text.dropBlanks t with
  | .char '=' :: afterSign =>
    match Text.dropBlanks afterSign with
    | .char '"' :: rest => some rest
    | _ => none
  | _ => none

/-- The `value` attribute of a parameter marker; reads everything up to its opening quote. -/
def valueForm : Form Text := fun before t => do
  if (before.map Glyph.isWord).getD false then none
  else
    let rest ← Text.dropWord? "value".toList t
    let quoted ← dropAssign? rest
    let (_, after) ← Text.upTo? (.char '"') quoted
    some (t.take (t.length - quoted.length), after)

/-- A marker comment under another keyword. -/
def withKeyword (raw keyword : Text) : Text :=
  let inner := raw.drop opener.length
  opener ++ inner.takeWhile Glyph.isBlank ++ keyword ++
    (Text.dropBlanks inner).dropWhile Glyph.isLetter

/-- A parameter marker with another value, if it has one. -/
def withValue (raw value : Text) : Text :=
  valueForm.replaceFirst (fun head => head ++ value ++ [.char '"']) raw

/-- The parameter of a name; of several the last one counts. -/
def param? (params : List Param) (name : Text) : Option Param :=
  (params.filter fun param => param.name = name).getLast?

/-- How a marker of template text is written in page text. -/
def convert (params : List Param) (token : Token) : Text :=
  match token.kind with
  | .regionBegin .template | .regionEnd .template =>
    withKeyword token.raw token.kind.onPage.keyword
  | .param .template =>
    let renamed := withKeyword token.raw token.kind.onPage.keyword
    match param? params token.name with
    | some param => withValue renamed param.value
    | none => renamed
  | _ => token.raw

/-- The text from offset `cursor` on with the markers in it converted. -/
def convertFrom (params : List Param) (text : Text) (cursor : Nat) : List Token → Text
  | [] => text.drop cursor
  | token :: tokens =>
    text.slice cursor token.start ++ convert params token ++
      convertFrom params text token.stop tokens

/-- Template text as page text. -/
def toPage (params : List Param) (text : Text) : Text :=
  infoForm.cutAll (convertFrom params text 0 (Marker.scan text))

end Skeleton

end Stencil

import Stencil.Json.Basic
import Stencil.Text.Bytes

/-!
# Reading JSON

A text is first cut into lexemes; then a stack of open arrays and objects takes them one by one.
The reader is strict: nothing behind a value, no comma before a bracket, no number but the
decimal ones of the grammar, no half of a surrogate pair.
-/

namespace Stencil.Json

/-- What differs between the places where JSON is read. -/
structure Dialect where
  /-- Whole numbers outside the 64-bit words are kept whole. -/
  wideIntegers : Bool
  /-- Numbers too large for a finite value are read as infinite. -/
  infinities : Bool
  /-- How many arrays and objects may be open at a time, if there is a limit. -/
  depth? : Option Nat

/-- Files on disk. -/
def Dialect.file : Dialect := ⟨false, false, some 1024⟩

/-- Messages between programs. -/
def Dialect.message : Dialect := ⟨true, true, none⟩

inductive Lexeme where
  | openArray
  | closeArray
  | openObject
  | closeObject
  | comma
  | colon
  | string (t : Text)
  | atom (value : Json)

/-! ## Strings -/

/-- What stands between the opening quote, which has been passed, and the quote that ends the
string, and what follows. -/
def rawString? : (escaped : Bool) → Text → Option (Text × Text)
  | _, [] => none
  | true, g :: t => (rawString? false t).map fun (raw, rest) => (g :: raw, rest)
  | false, g :: t =>
    if g = .char '"' then some ([], t)
    else (rawString? (g = .char '\\') t).map fun (raw, rest) => (g :: raw, rest)

/-- A part of a string: a glyph, or a 16-bit unit written by number. -/
inductive Part where
  | glyph (g : Glyph)
  | unit (n : Nat)

def hexValue? (g : Glyph) : Option Nat :=
  let n := g.code
  if 0x30 ≤ n && n ≤ 0x39 then some (n - 0x30)
  else if 0x41 ≤ n && n ≤ 0x46 then some (n - 0x37)
  else if 0x61 ≤ n && n ≤ 0x66 then some (n - 0x57)
  else none

def hexUnit? (a b c d : Glyph) : Option Nat := do
  some (((← hexValue? a) * 16 + (← hexValue? b)) * 256 + (← hexValue? c) * 16 + (← hexValue? d))

/-- The character a letter stands for behind a backslash. -/
def escapeOf? : Glyph → Option Char
  | .char '"' => some '"'
  | .char '\\' => some '\\'
  | .char '/' => some '/'
  | .char 'b' => some '\x08'
  | .char 'f' => some '\x0c'
  | .char 'n' => some '\n'
  | .char 'r' => some '\r'
  | .char 't' => some '\t'
  | _ => none

def parts? : Text → Option (List Part)
  | [] => some []
  | .char '\\' :: .char 'u' :: a :: b :: c :: d :: t => do
    let n ← hexUnit? a b c d
    return .unit n :: (← parts? t)
  | .char '\\' :: g :: t => do
    let c ← escapeOf? g
    return .glyph (.char c) :: (← parts? t)
  | g :: t => if g.code < 0x20 then none else do return .glyph g :: (← parts? t)

/-- Two units of a surrogate pair make one character; a unit of a pair alone is refused. -/
def joinUnits? : List Part → Option Text
  | [] => some []
  | .glyph g :: ps => do return g :: (← joinUnits? ps)
  | .unit high :: .unit low :: ps =>
    if 0xd800 ≤ high && high ≤ 0xdbff then
      if 0xdc00 ≤ low && low ≤ 0xdfff then do
        return .ofCode (0x10000 + (high - 0xd800) * 0x400 + (low - 0xdc00)) :: (← joinUnits? ps)
      else none
    else if 0xdc00 ≤ high && high ≤ 0xdfff then none
    else do return .ofCode high :: (← joinUnits? (.unit low :: ps))
  | .unit n :: ps =>
    if 0xd800 ≤ n && n ≤ 0xdfff then none else do return .ofCode n :: (← joinUnits? ps)

/-! ## Numbers -/

def isNumberGlyph (g : Glyph) : Bool :=
  g.isDigit || g = .char '-' || g = .char '+' || g = .char '.' || g = .char 'e' || g = .char 'E'

/-- A fraction at the head of a text: its digits, none when there is no point. -/
def fraction? (t : Text) : Option (Text × Text) :=
  match t with
  | .char '.' :: rest =>
    let digits := rest.takeWhile Glyph.isDigit
    if digits.isEmpty then none else some (digits, rest.dropWhile Glyph.isDigit)
  | _ => some ([], t)

/-- The exponent that a text is, nothing being written as zero. -/
def exponent? (t : Text) : Option Int :=
  let whole? (ds : Text) : Option Nat :=
    if ds.isEmpty || !ds.all Glyph.isDigit then none else some (Text.digitsValue ds)
  match t with
  | [] => some 0
  | e :: rest =>
    if e = .char 'e' || e = .char 'E' then
      match rest with
      | .char '-' :: ds => (whole? ds).map fun n => -(n : Int)
      | .char '+' :: ds => (whole? ds).map fun n => (n : Int)
      | ds => (whole? ds).map fun n => (n : Int)
    else none

/-- The number that a whole text is. -/
def number? (dialect : Dialect) (t : Text) : Option Json := do
  let (negative, unsigned) := match t with
    | .char '-' :: rest => (true, rest)
    | _ => (false, t)
  let whole := unsigned.takeWhile Glyph.isDigit
  let behind := unsigned.dropWhile Glyph.isDigit
  if whole.isEmpty || (whole.head? = some (.char '0') && 1 < whole.length) then none
  else if behind.isEmpty then
    let n : Int := if negative then -(Text.digitsValue whole : Int) else Text.digitsValue whole
    if dialect.wideIntegers || (-0x8000000000000000 ≤ n && n < 0x10000000000000000) then some (.int n)
    else finite? (Binary64.ofDecimal negative (Text.digitsValue whole) 0)
  else
    let (places, rest) ← fraction? behind
    let exponent ← exponent? rest
    finite? (Binary64.ofDecimal negative (Text.digitsValue (whole ++ places))
      (exponent - places.length))
where
  finite? : Binary64 → Option Json
    | .infinite negative => if dialect.infinities then some (.float (.infinite negative)) else none
    | x => some (.float x)

/-! ## Lexemes -/

/-- The words of JSON. -/
def words : List (Text × Json) :=
  [("true", .bool true), ("false", .bool false), ("null", .null)]

/-- The lexeme at the head of a text and what follows it. -/
def lexeme? (dialect : Dialect) (t : Text) : Option (Lexeme × Text) :=
  match t with
  | [] => none
  | .char '[' :: rest => some (.openArray, rest)
  | .char ']' :: rest => some (.closeArray, rest)
  | .char '\x7b' :: rest => some (.openObject, rest)
  | .char '\x7d' :: rest => some (.closeObject, rest)
  | .char ',' :: rest => some (.comma, rest)
  | .char ':' :: rest => some (.colon, rest)
  | .char '"' :: rest => do
    let (raw, after) ← rawString? false rest
    let text ← joinUnits? (← parts? raw)
    some (.string text, after)
  | g :: _ =>
    if isNumberGlyph g && g ≠ .char 'e' && g ≠ .char 'E' then
      (number? dialect (t.takeWhile isNumberGlyph)).map fun value =>
        (.atom value, t.dropWhile isNumberGlyph)
    else
      words.findSome? fun (word, value) =>
        (Text.dropHead? word t).map fun rest => (.atom value, rest)

def isSpace (g : Glyph) : Bool :=
  g = .char ' ' || g = .char '\t' || g = .char '\n' || g = .char '\r'

/-- The lexemes of a text, the first `skip` glyphs of which have been read already. -/
def lexFrom? (dialect : Dialect) : (skip : Nat) → Text → Option (List Lexeme)
  | _, [] => some []
  | skip + 1, _ :: t => lexFrom? dialect skip t
  | 0, g :: t =>
    if isSpace g then lexFrom? dialect 0 t
    else do
      let (lexeme, rest) ← lexeme? dialect (g :: t)
      return lexeme :: (← lexFrom? dialect (t.length - rest.length) t)

/-! ## Values -/

/-- An array or an object that is still open, its last part first. -/
inductive Frame where
  | array (items : List Json)
  | object (members : List (Text × Json))
  | member (members : List (Text × Json)) (key : Text)

/-- What may come next. -/
inductive Expected where
  /-- A value; `orClose` right behind an opening bracket. -/
  | value (orClose : Bool)
  /-- A key; `orClose` right behind an opening brace. -/
  | key (orClose : Bool)
  | colon
  | commaOrClose
  | nothing (result : Json)

/-- Puts a finished value where it belongs. -/
def deliver (value : Json) : List Frame → Expected × List Frame
  | [] => (.nothing value, [])
  | .array items :: frames => (.commaOrClose, .array (value :: items) :: frames)
  | .member members key :: frames =>
    (.commaOrClose, .object (setMember key value members) :: frames)
  | .object members :: frames => (.commaOrClose, .object members :: frames)

/-- Whether one more array or object may be opened. -/
def Dialect.admits (dialect : Dialect) (frames : List Frame) : Bool :=
  match dialect.depth? with
  | none => true
  | some limit => frames.length < limit

/-- One lexeme. -/
def step? (dialect : Dialect) (expected : Expected) (frames : List Frame) (lexeme : Lexeme) :
    Option (Expected × List Frame) :=
  match expected, lexeme, frames with
  | .value _, .atom value, _ => some (deliver value frames)
  | .value _, .string t, _ => some (deliver (.string t) frames)
  | .value _, .openArray, _ =>
    if dialect.admits frames then some (.value true, .array [] :: frames) else none
  | .value _, .openObject, _ =>
    if dialect.admits frames then some (.key true, .object [] :: frames) else none
  | .value true, .closeArray, .array items :: rest => some (deliver (.array items.reverse) rest)
  | .key _, .string key, .object members :: rest => some (.colon, .member members key :: rest)
  | .key true, .closeObject, .object members :: rest => some (deliver (.object members) rest)
  | .colon, .colon, _ => some (.value false, frames)
  | .commaOrClose, .comma, .array _ :: _ => some (.value false, frames)
  | .commaOrClose, .comma, .object _ :: _ => some (.key false, frames)
  | .commaOrClose, .closeArray, .array items :: rest => some (deliver (.array items.reverse) rest)
  | .commaOrClose, .closeObject, .object members :: rest => some (deliver (.object members) rest)
  | _, _, _ => none

def assemble? (dialect : Dialect) : Expected → List Frame → List Lexeme → Option Json
  | .nothing result, _, [] => some result
  | _, _, [] => none
  | expected, frames, lexeme :: lexemes =>
    match step? dialect expected frames lexeme with
    | some (expected, frames) => assemble? dialect expected frames lexemes
    | none => none

/-- The value a text is. -/
def readText? (dialect : Dialect) (t : Text) : Option Json := do
  assemble? dialect (.value false) [] (← lexFrom? dialect 0 t)

/-- The value the bytes of a file are; they must be characters throughout. -/
def read? (dialect : Dialect) (bytes : Bytes) : Option Json :=
  let t := Text.decode bytes
  if t.isPlain then readText? dialect t else none

end Stencil.Json

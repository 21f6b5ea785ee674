import Stencil.Marker.Body

/-!
# Scanning a text for markers

A comment runs from its opener to the first closer behind it, provided no other opener comes
first: an opener that is never closed does not swallow the marker after it. Two comments never
share a glyph, so the scan asks at every offset whether a comment begins there.
-/

namespace Stencil.Marker

def opener : Text := [.char '<', .char '!', .char '-', .char '-']

def closer : Text := [.char '-', .char '-', .char '>']

/-- The body of a comment whose opener has just been passed: what comes before the first closer,
or nothing if another opener or the end of the text comes first. -/
def bodyBefore? : Text → Option Text
  | [] => none
  | g :: t =>
    if closer.isPrefixOf (g :: t) then some []
    else if opener.isPrefixOf (g :: t) then none
    else (bodyBefore? t).map (g :: ·)

/-- The body of the comment that begins at the head of a text. -/
def commentAt? (t : Text) : Option Text := (Text.dropHead? opener t).bind bodyBefore?

/-- A comment in a text: the offset of its opener, and its body. -/
structure Comment where
  start : Nat
  body : Text
deriving DecidableEq, Repr

namespace Comment

def stop (c : Comment) : Nat := c.start + opener.length + c.body.length + closer.length

def raw (c : Comment) : Text := opener ++ c.body ++ closer

end Comment

/-- The comments of a text whose first glyph has offset `place`, in order. -/
def commentsFrom (place : Nat) : Text → List Comment
  | [] => []
  | g :: t =>
    match commentAt? (g :: t) with
    | some body => ⟨place, body⟩ :: commentsFrom (place + 1) t
    | none => commentsFrom (place + 1) t

def comments (t : Text) : List Comment := commentsFrom 0 t

/-- The token of a comment in a text whose lines begin at `starts`, if it is a marker. -/
def tokenOf? (starts : List Nat) (c : Comment) : Option Token :=
  (classify c.body).map fun (kind, attributes) =>
    { kind
      name := (kind.nameKey?.bind (attributes.lookup ·)).getD []
      span := ⟨Position.ofOffset starts c.start, Position.ofOffset starts c.stop⟩
      start := c.start
      stop := c.stop
      raw := c.raw
      attributes }

/-- The markers of a text, in order. -/
def scan (t : Text) : List Token :=
  (comments t).filterMap (tokenOf? (Position.lineStarts t))

/-- The binding that counts is the first one. -/
def firstBinding? (tokens : List Token) : Option Token :=
  tokens.find? fun token => token.kind = .binding

/-- The template reference of the first binding of a text. -/
def readBinding? (t : Text) : Option Text := (firstBinding? (scan t)).map (·.name)

end Stencil.Marker

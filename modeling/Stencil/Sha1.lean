import Stencil.Text.Bytes

/-!
# SHA-1

Backups of files outside the site are kept apart by the SHA-1 digest of their paths.
-/

namespace Stencil.Sha1

def rotateLeft (x k : UInt32) : UInt32 := (x <<< k) ||| (x >>> (32 - k))

/-- The message, a one bit, zeros, and the length in bits as eight bytes, a multiple of 64 bytes. -/
def padded (message : Bytes) : Bytes :=
  let bits := 8 * message.length
  let zeros := (119 - message.length % 64) % 64
  message ++ 0x80 :: List.replicate zeros 0 ++
    (List.range 8).map fun k => UInt8.ofNat (bits / Nat.pow 256 (7 - k))

/-- The big-endian words of a message. -/
def words : Bytes → List UInt32
  | a :: b :: c :: d :: rest =>
    (a.toUInt32 <<< 24 ||| b.toUInt32 <<< 16 ||| c.toUInt32 <<< 8 ||| d.toUInt32) :: words rest
  | _ => []

/-- So many more words of a schedule, which is given last word first. -/
def extend : Nat → List UInt32 → List UInt32
  | 0, ws => ws
  | n + 1, ws =>
    let word (back : Nat) : UInt32 := ws[back - 1]?.getD 0
    extend n (rotateLeft (word 3 ^^^ word 8 ^^^ word 14 ^^^ word 16) 1 :: ws)

structure State where
  a : UInt32
  b : UInt32
  c : UInt32
  d : UInt32
  e : UInt32

def start : State := ⟨0x67452301, 0xefcdab89, 0x98badcfe, 0x10325476, 0xc3d2e1f0⟩

/-- What round number `t` mixes from the middle words, and its constant. -/
def mix (t : Nat) (b c d : UInt32) : UInt32 × UInt32 :=
  if t < 20 then ((b &&& c) ||| (~~~b &&& d), 0x5a827999)
  else if t < 40 then (b ^^^ c ^^^ d, 0x6ed9eba1)
  else if t < 60 then ((b &&& c) ||| (b &&& d) ||| (c &&& d), 0x8f1bbcdc)
  else (b ^^^ c ^^^ d, 0xca62c1d6)

def rounds (t : Nat) (s : State) : List UInt32 → State
  | [] => s
  | w :: ws =>
    let (f, k) := mix t s.b s.c s.d
    rounds (t + 1) ⟨rotateLeft s.a 5 + f + s.e + k + w, s.a, rotateLeft s.b 30, s.c, s.d⟩ ws

/-- One block of sixteen words. -/
def block (s : State) (ws : List UInt32) : State :=
  let r := rounds 0 s (extend 64 ws.reverse).reverse
  ⟨s.a + r.a, s.b + r.b, s.c + r.c, s.d + r.d, s.e + r.e⟩

/-- So many blocks. -/
def blocks : Nat → State → List UInt32 → State
  | 0, s, _ => s
  | n + 1, s, ws => blocks n (block s (ws.take 16)) (ws.drop 16)

/-- The digest in lower-case hexadecimal, forty digits. -/
def hexDigest (message : Bytes) : Text :=
  let ws := words (padded message)
  let s := blocks (ws.length / 16) start ws
  Text.hexOfBytes ([s.a, s.b, s.c, s.d, s.e].flatMap fun (w : UInt32) =>
    [(w >>> 24).toUInt8, (w >>> 16).toUInt8, (w >>> 8).toUInt8, w.toUInt8])

end Stencil.Sha1

import Mathlib.Algebra.Group.Nat.Defs

namespace taurus.python

/-- The bytes of a character in UTF-8. -/
def utf8 (c : Char) : List Nat :=
  let n := c.toNat
  if n < 0x80 then [n]
  else if n < 0x800 then [0xc0 + n / 0x40, 0x80 + n % 0x40]
  else if n < 0x10000 then [0xe0 + n / 0x1000, 0x80 + n / 0x40 % 0x40, 0x80 + n % 0x40]
  else [0xf0 + n / 0x40000, 0x80 + n / 0x1000 % 0x40, 0x80 + n / 0x40 % 0x40, 0x80 + n % 0x40]

/-- `n` as `count` digits of base `base`, the most significant first. -/
def digits (base : Nat) : Nat → Nat → List Nat
  | 0, _ => []
  | count + 1, n => digits base count (n / base) ++ [n % base]

namespace sha1

/-- Rotate a 32-bit word to the left. -/
def rotl (n x : Nat) : Nat := ((x <<< n) ||| (x >>> (32 - n))) % 2 ^ 32

/-- The message with its padding and its length in bits: a multiple of 64 bytes. -/
def pad (message : List Nat) : List Nat :=
  message ++ 0x80 :: List.replicate ((119 - message.length % 64) % 64) 0 ++
    digits 256 8 (8 * message.length)

/-- The big-endian words of the bytes. -/
def words : List Nat → List Nat
  | a :: b :: c :: d :: rest => (((a * 256 + b) * 256 + c) * 256 + d) :: words rest
  | _ => []

/-- Put `count` more words before the last sixteen, the latest first. -/
def extend : Nat → List Nat → List Nat
  | 0, ws => ws
  | count + 1, ws =>
    let w := rotl 1 (ws.getD 2 0 ^^^ ws.getD 7 0 ^^^ ws.getD 13 0 ^^^ ws.getD 15 0)
    extend count (w :: ws)

structure State where
  a : Nat
  b : Nat
  c : Nat
  d : Nat
  e : Nat

def initial : State :=
  { a := 0x67452301, b := 0xefcdab89, c := 0x98badcfe, d := 0x10325476, e := 0xc3d2e1f0 }

/-- The function and the constant of round `i`. -/
def mix (i : Nat) (s : State) : Nat :=
  if i < 20 then ((s.b &&& s.c) ||| ((2 ^ 32 - 1 - s.b) &&& s.d)) + 0x5a827999
  else if i < 40 then (s.b ^^^ s.c ^^^ s.d) + 0x6ed9eba1
  else if i < 60 then ((s.b &&& s.c) ||| (s.b &&& s.d) ||| (s.c &&& s.d)) + 0x8f1bbcdc
  else (s.b ^^^ s.c ^^^ s.d) + 0xca62c1d6

/-- The rounds over the remaining words, of which `i` is the number of the first. -/
def rounds : Nat → List Nat → State → State
  | _, [], s => s
  | i, w :: ws, s =>
    rounds (i + 1) ws
      { a := (rotl 5 s.a + mix i s + s.e + w) % 2 ^ 32, b := s.a, c := rotl 30 s.b, d := s.c, e := s.d }

/-- Compress the blocks one by one; `fuel` bounds their number. -/
def compress : Nat → List Nat → State → State
  | 0, _, s => s
  | fuel + 1, ws, s =>
    if ws = [] then s
    else
      let t := rounds 0 (extend 64 (ws.take 16).reverse).reverse s
      compress fuel (ws.drop 16)
        { a := (s.a + t.a) % 2 ^ 32, b := (s.b + t.b) % 2 ^ 32, c := (s.c + t.c) % 2 ^ 32,
          d := (s.d + t.d) % 2 ^ 32, e := (s.e + t.e) % 2 ^ 32 }

end sha1

/-- `hashlib.sha1(text.encode("utf-8")).hexdigest()` -/
def sha1_hexdigest (text : List Char) : List Char :=
  let ws := sha1.words (sha1.pad (text.flatMap utf8))
  let s := sha1.compress ws.length ws sha1.initial
  [s.a, s.b, s.c, s.d, s.e].flatMap fun w =>
    (digits 16 8 w).map fun d => if d < 10 then Char.ofNat (48 + d) else Char.ofNat (87 + d)

end taurus.python

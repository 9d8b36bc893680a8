import RationaleVault.Library.Numerals

/-!
# SHA-256

The hash function of FIPS 180-4 on the UTF-8 bytes of a text, with its
64-digit hexadecimal form. Nothing is proved about it beyond the length of
that form; where a result rests on the absence of a collision, it says so for
the texts it is about.
-/

namespace Sha256

abbrev Word := BitVec 32

def roundConstants : List Word :=
  [ 0x428a2f98, 0x71374491, 0xb5c0fbcf, 0xe9b5dba5, 0x3956c25b, 0x59f111f1,
    0x923f82a4, 0xab1c5ed5, 0xd807aa98, 0x12835b01, 0x243185be, 0x550c7dc3,
    0x72be5d74, 0x80deb1fe, 0x9bdc06a7, 0xc19bf174, 0xe49b69c1, 0xefbe4786,
    0x0fc19dc6, 0x240ca1cc, 0x2de92c6f, 0x4a7484aa, 0x5cb0a9dc, 0x76f988da,
    0x983e5152, 0xa831c66d, 0xb00327c8, 0xbf597fc7, 0xc6e00bf3, 0xd5a79147,
    0x06ca6351, 0x14292967, 0x27b70a85, 0x2e1b2138, 0x4d2c6dfc, 0x53380d13,
    0x650a7354, 0x766a0abb, 0x81c2c92e, 0x92722c85, 0xa2bfe8a1, 0xa81a664b,
    0xc24b8b70, 0xc76c51a3, 0xd192e819, 0xd6990624, 0xf40e3585, 0x106aa070,
    0x19a4c116, 0x1e376c08, 0x2748774c, 0x34b0bcb5, 0x391c0cb3, 0x4ed8aa4a,
    0x5b9cca4f, 0x682e6ff3, 0x748f82ee, 0x78a5636f, 0x84c87814, 0x8cc70208,
    0x90befffa, 0xa4506ceb, 0xbef9a3f7, 0xc67178f2]

/-- The eight working variables. -/
structure State where
  a : Word
  b : Word
  c : Word
  d : Word
  e : Word
  f : Word
  g : Word
  h : Word

def State.initial : State :=
  ⟨0x6a09e667, 0xbb67ae85, 0x3c6ef372, 0xa54ff53a,
    0x510e527f, 0x9b05688c, 0x1f83d9ab, 0x5be0cd19⟩

def choose (x y z : Word) : Word := (x &&& y) ^^^ (~~~x &&& z)

def majority (x y z : Word) : Word := (x &&& y) ^^^ (x &&& z) ^^^ (y &&& z)

def bigSigma0 (x : Word) : Word := x.rotateRight 2 ^^^ x.rotateRight 13 ^^^ x.rotateRight 22

def bigSigma1 (x : Word) : Word := x.rotateRight 6 ^^^ x.rotateRight 11 ^^^ x.rotateRight 25

def smallSigma0 (x : Word) : Word := x.rotateRight 7 ^^^ x.rotateRight 18 ^^^ (x >>> 3)

def smallSigma1 (x : Word) : Word := x.rotateRight 17 ^^^ x.rotateRight 19 ^^^ (x >>> 10)

/-- Padding: a one bit, zeros, and the bit length in the last eight bytes. -/
def padding (length : Nat) : List Nat :=
  0x80 :: List.replicate ((119 - length % 64) % 64) 0 ++
    (List.range 8).map fun i => 8 * length / 256 ^ (7 - i) % 256

/-- Big-endian words of a byte string whose length is a multiple of four. -/
def toWords : List Nat → List Word
  | b0 :: b1 :: b2 :: b3 :: rest =>
      BitVec.ofNat 32 (((b0 * 256 + b1) * 256 + b2) * 256 + b3) :: toWords rest
  | _ => []

/-- The message schedule, grown one word at a time from the sixteen words of a block. The newest
word stands first. -/
def extend : (count : Nat) → List Word → List Word
  | 0, ws => ws
  | count + 1, ws =>
      let w := smallSigma1 (ws.getD 1 0) + ws.getD 6 0 + smallSigma0 (ws.getD 14 0) + ws.getD 15 0
      extend count (w :: ws)

def round (s : State) (kw : Word × Word) : State :=
  let t1 := s.h + bigSigma1 s.e + choose s.e s.f s.g + kw.1 + kw.2
  let t2 := bigSigma0 s.a + majority s.a s.b s.c
  ⟨t1 + t2, s.a, s.b, s.c, s.d + t1, s.e, s.f, s.g⟩

/-- Mix one block of sixteen words into the state. -/
def compress (s : State) (block : List Word) : State :=
  let t := (roundConstants.zip (extend 48 block.reverse).reverse).foldl round s
  ⟨s.a + t.a, s.b + t.b, s.c + t.c, s.d + t.d, s.e + t.e, s.f + t.f, s.g + t.g, s.h + t.h⟩

/-- Mix the blocks of a padded message, sixteen words at a time. -/
def blocks : (count : Nat) → State → List Word → State
  | 0, s, _ => s
  | count + 1, s, ws => blocks count (compress s (ws.take 16)) (ws.drop 16)

def digest (bytes : List Nat) : State :=
  let ws := toWords (bytes ++ padding bytes.length)
  blocks (ws.length / 16) .initial ws

/-- `text.encode("utf-8")`. -/
def bytes (text : String) : List Nat := text.toUTF8.data.toList.map UInt8.toNat

/-- `hashlib.sha256(text.encode("utf-8")).hexdigest()`. -/
def hexdigest (text : String) : String :=
  let s := digest (bytes text)
  String.ofList ([s.a, s.b, s.c, s.d, s.e, s.f, s.g, s.h].flatMap fun w => Hex.encode 8 w.toNat)

@[simp] theorem length_hexdigest (text : String) : (hexdigest text).length = 64 := by
  simp [hexdigest]

theorem hexdigest_ne_empty (text : String) : hexdigest text ≠ "" := by
  intro h
  have := congrArg String.length h
  simp at this

theorem mem_hexdigest {text : String} {c : Char} (h : c ∈ (hexdigest text).toList) :
    ∃ d < 16, c = Hex.digit d := by
  rw [hexdigest, String.toList_ofList, List.mem_flatMap] at h
  obtain ⟨w, -, hc⟩ := h
  exact Hex.mem_encode hc

/-- Digests that differ in the first word are different. -/
theorem hexdigest_ne {text text' : String}
    (h : (digest (bytes text)).a ≠ (digest (bytes text')).a) : hexdigest text ≠ hexdigest text' := by
  intro heq
  have hlist := congrArg (fun s => s.toList.take 8) heq
  simp only [hexdigest, String.toList_ofList, List.flatMap_cons] at hlist
  rw [List.take_left' (Hex.length_encode 8 _), List.take_left' (Hex.length_encode 8 _)] at hlist
  have hdecode := congrArg Hex.decode hlist
  rw [Hex.decode_encode, Hex.decode_encode, Option.some.injEq] at hdecode
  apply h
  apply BitVec.eq_of_toNat_eq
  have := (digest (bytes text)).a.isLt
  have := (digest (bytes text')).a.isLt
  omega

example : hexdigest "abc" =
    "ba7816bf8f01cfea414140de5dae2223b00361a396177a9cb410ff61f20015ad" := by decide +kernel

attribute [irreducible] hexdigest

end Sha256

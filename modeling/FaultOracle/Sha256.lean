import Mathlib.Data.List.GetD

/-!
# SHA-256

The hash function of FIPS 180-4 on lists of bytes, and its digest in hexadecimal digits.
-/

namespace Sha256

abbrev Bytes := List UInt8

abbrev Word := BitVec 32

/-! ## One block -/

/-- The constants of the rounds. -/
def roundConstants : List Word :=
  [0x428a2f98, 0x71374491, 0xb5c0fbcf, 0xe9b5dba5, 0x3956c25b, 0x59f111f1, 0x923f82a4, 0xab1c5ed5,
    0xd807aa98, 0x12835b01, 0x243185be, 0x550c7dc3, 0x72be5d74, 0x80deb1fe, 0x9bdc06a7, 0xc19bf174,
    0xe49b69c1, 0xefbe4786, 0x0fc19dc6, 0x240ca1cc, 0x2de92c6f, 0x4a7484aa, 0x5cb0a9dc, 0x76f988da,
    0x983e5152, 0xa831c66d, 0xb00327c8, 0xbf597fc7, 0xc6e00bf3, 0xd5a79147, 0x06ca6351, 0x14292967,
    0x27b70a85, 0x2e1b2138, 0x4d2c6dfc, 0x53380d13, 0x650a7354, 0x766a0abb, 0x81c2c92e, 0x92722c85,
    0xa2bfe8a1, 0xa81a664b, 0xc24b8b70, 0xc76c51a3, 0xd192e819, 0xd6990624, 0xf40e3585, 0x106aa070,
    0x19a4c116, 0x1e376c08, 0x2748774c, 0x34b0bcb5, 0x391c0cb3, 0x4ed8aa4a, 0x5b9cca4f, 0x682e6ff3,
    0x748f82ee, 0x78a5636f, 0x84c87814, 0x8cc70208, 0x90befffa, 0xa4506ceb, 0xbef9a3f7, 0xc67178f2]

/-- The eight words of a hash value. -/
structure State where
  a : Word
  b : Word
  c : Word
  d : Word
  e : Word
  f : Word
  g : Word
  h : Word
deriving DecidableEq

/-- The initial hash value. -/
def State.initial : State where
  a := 0x6a09e667
  b := 0xbb67ae85
  c := 0x3c6ef372
  d := 0xa54ff53a
  e := 0x510e527f
  f := 0x9b05688c
  g := 0x1f83d9ab
  h := 0x5be0cd19

def ch (x y z : Word) : Word := (x &&& y) ^^^ (~~~x &&& z)

def maj (x y z : Word) : Word := (x &&& y) ^^^ (x &&& z) ^^^ (y &&& z)

def upperSigma0 (x : Word) : Word := x.rotateRight 2 ^^^ x.rotateRight 13 ^^^ x.rotateRight 22

def upperSigma1 (x : Word) : Word := x.rotateRight 6 ^^^ x.rotateRight 11 ^^^ x.rotateRight 25

def sigma0 (x : Word) : Word := x.rotateRight 7 ^^^ x.rotateRight 18 ^^^ x >>> 3

def sigma1 (x : Word) : Word := x.rotateRight 17 ^^^ x.rotateRight 19 ^^^ x >>> 10

/-- One round, with its constant and its word of the schedule. -/
def State.round (s : State) (k w : Word) : State :=
  let t1 := s.h + upperSigma1 s.e + ch s.e s.f s.g + k + w
  let t2 := upperSigma0 s.a + maj s.a s.b s.c
  ⟨t1 + t2, s.a, s.b, s.c, s.d + t1, s.e, s.f, s.g⟩

/-- `n` more words of the schedule; the latest word is the first. -/
def extend : Nat → List Word → List Word
  | 0, recent => recent
  | n + 1, recent =>
      extend n ((sigma1 (recent.getD 1 0) + recent.getD 6 0 + sigma0 (recent.getD 14 0) +
        recent.getD 15 0) :: recent)

/-- The schedule of a block of sixteen words. -/
def schedule (block : List Word) : List Word := (extend 48 block.reverse).reverse

/-- The hash value behind one more block. -/
def State.block (s : State) (block : List Word) : State :=
  let r := (roundConstants.zip (schedule block)).foldl (fun s p => s.round p.1 p.2) s
  ⟨s.a + r.a, s.b + r.b, s.c + r.c, s.d + r.d, s.e + r.e, s.f + r.f, s.g + r.g, s.h + r.h⟩

/-! ## A message -/

/-- The last `n` bytes of a number, the highest first. -/
def bigEndian : Nat → Nat → Bytes
  | 0, _ => []
  | n + 1, value => bigEndian n (value / 256) ++ [UInt8.ofNat value]

/-- The message with its padding, whose length is a multiple of 64. -/
def padded (message : Bytes) : Bytes :=
  message ++ 0x80 :: List.replicate ((119 - message.length % 64) % 64) 0 ++
    bigEndian 8 (8 * message.length)

def words : Bytes → List Word
  | a :: b :: c :: d :: rest =>
      BitVec.ofNat 32 (((a.toNat * 256 + b.toNat) * 256 + c.toNat) * 256 + d.toNat) :: words rest
  | _ => []

/-- The hash value behind `n` blocks. -/
def State.blocks : Nat → List Word → State → State
  | 0, _, s => s
  | n + 1, ws, s => State.blocks n (ws.drop 16) (s.block (ws.take 16))

def hash (message : Bytes) : State :=
  let ws := words (padded message)
  State.blocks (ws.length / 16) ws .initial

/-! ## Its digits -/

def hexDigits : List Char := "0123456789abcdef".toList

/-- The eight digits of a word. -/
def wordDigits (w : Word) : List Char :=
  [28, 24, 20, 16, 12, 8, 4, 0].map fun shift =>
    hexDigits.getD ((w >>> (shift : Nat)).toNat % 16) '0'

/-- `hexdigest`. -/
def hexdigest (message : Bytes) : List Char :=
  let s := hash message
  [s.a, s.b, s.c, s.d, s.e, s.f, s.g, s.h].flatMap wordDigits

theorem mem_hexDigits_of_mem_wordDigits {w : Word} {c : Char} (h : c ∈ wordDigits w) :
    c ∈ hexDigits := by
  obtain ⟨shift, _, rfl⟩ := List.mem_map.mp h
  have hlt : (w >>> shift).toNat % 16 < hexDigits.length := Nat.mod_lt _ (by decide)
  rw [List.getD_eq_getElem _ _ hlt]
  exact List.getElem_mem hlt

/-- A digest is made of hexadecimal digits. -/
theorem mem_hexDigits {message : Bytes} {c : Char} (h : c ∈ hexdigest message) : c ∈ hexDigits := by
  obtain ⟨w, _, hc⟩ := List.mem_flatMap.mp h
  exact mem_hexDigits_of_mem_wordDigits hc

theorem length_hexdigest (message : Bytes) : (hexdigest message).length = 64 := rfl

example : hexdigest [97, 98, 99] =
    "ba7816bf8f01cfea414140de5dae2223b00361a396177a9cb410ff61f20015ad".toList := by
  decide +kernel

end Sha256

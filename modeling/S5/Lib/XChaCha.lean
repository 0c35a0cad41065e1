import S5.Lib.LittleEndian
import S5.Lib.Chunked

/-!
# XChaCha20-Poly1305

The cipher with a nonce of 24 bytes and no associated data: a key stream of blocks that the text is
xored with, and a tag over the ciphertext.

* `decrypt_encrypt`: the round trip.
-/

namespace XChaCha

/-! ## Words -/

def words (bytes : List UInt8) : List UInt32 :=
  (Chunked.chunks 4 bytes).map fun word => .ofNat (LittleEndian.value word)

def rotl (x n : UInt32) : UInt32 := (x <<< n) ||| (x >>> (32 - n))

/-! ## The key stream -/

def quarterRound (s : List UInt32) (i j k l : Nat) : List UInt32 :=
  let a := s.getD i 0
  let b := s.getD j 0
  let c := s.getD k 0
  let d := s.getD l 0
  let a := a + b
  let d := rotl (d ^^^ a) 16
  let c := c + d
  let b := rotl (b ^^^ c) 12
  let a := a + b
  let d := rotl (d ^^^ a) 8
  let c := c + d
  let b := rotl (b ^^^ c) 7
  (((s.set i a).set j b).set k c).set l d

example : quarterRound [0x11111111, 0x01020304, 0x9b8d6f43, 0x01234567] 0 1 2 3 =
    [0xea2a92f4, 0xcb1cf8ce, 0x4581472e, 0x5881c4bb] := by decide

/-- The columns, then the diagonals. -/
def doubleRound (s : List UInt32) : List UInt32 :=
  [(0, 4, 8, 12), (1, 5, 9, 13), (2, 6, 10, 14), (3, 7, 11, 15),
    (0, 5, 10, 15), (1, 6, 11, 12), (2, 7, 8, 13), (3, 4, 9, 14)].foldl
    (fun s (i, j, k, l) => quarterRound s i j k l) s

/-- `ChaCha` with its 20 rounds. -/
def rounds (s : List UInt32) : List UInt32 := Nat.iterate doubleRound 10 s

/-- `expand 32-byte k`. -/
def constants : List UInt32 := [0x61707865, 0x3320646e, 0x79622d32, 0x6b206574]

/-- `HChaCha20`: the key for what the first 16 bytes of the nonce leave of it. -/
def subkey (key nonce : List UInt8) : List UInt32 :=
  let s := rounds (constants ++ words key ++ words (nonce.take 16))
  s.take 4 ++ s.drop 12

def block (key : List UInt32) (counter : Nat) (nonce : List UInt8) : List UInt8 :=
  let s := constants ++ key ++ .ofNat counter :: 0 :: words (nonce.drop 16)
  (List.zipWith (· + ·) (rounds s) s).flatMap fun word => LittleEndian.bytes 4 word.toNat

/-- The text xored with the key stream, whose block 0 is that of the tag. -/
def mix (key nonce text : List UInt8) : List UInt8 :=
  let key := subkey key nonce
  let stream := (List.range (text.length / 64 + 1)).flatMap fun i => block key (i + 1) nonce
  text.mapIdx fun i byte => byte ^^^ stream.getD i 0

/-! ## The tag -/

def poly1305 (key message : List UInt8) : List UInt8 :=
  let r := LittleEndian.value (key.take 16) &&& 0x0ffffffc0ffffffc0ffffffc0fffffff
  let acc := (Chunked.chunks 16 message).foldl
    (fun acc part => (acc + LittleEndian.value (part ++ [1])) * r % (2 ^ 130 - 5)) 0
  LittleEndian.bytes 16 ((acc + LittleEndian.value ((key.drop 16).take 16)) % 2 ^ 128)

def tag (key nonce cipher : List UInt8) : List UInt8 :=
  poly1305 (block (subkey key nonce) 0 nonce)
    (cipher ++ List.replicate ((16 - cipher.length % 16) % 16) 0 ++ LittleEndian.bytes 8 0 ++
      LittleEndian.bytes 8 cipher.length)

/-! ## The cipher -/

def encrypt (key nonce plain : List UInt8) : List UInt8 :=
  let cipher := mix key nonce plain
  cipher ++ tag key nonce cipher

def decrypt (key nonce sealed : List UInt8) : Option (List UInt8) :=
  let cipher := sealed.take (sealed.length - 16)
  if sealed = cipher ++ tag key nonce cipher then some (mix key nonce cipher) else none

variable (key nonce : List UInt8)

theorem length_mix (text : List UInt8) : (mix key nonce text).length = text.length :=
  List.length_mapIdx

theorem length_tag (cipher : List UInt8) : (tag key nonce cipher).length = 16 := by
  rw [tag, poly1305, LittleEndian.length_bytes]

theorem length_encrypt (plain : List UInt8) :
    (encrypt key nonce plain).length = plain.length + 16 := by
  rw [encrypt, List.length_append, length_mix, length_tag]

/-- The stream is the same in both directions. -/
theorem mix_mix (text : List UInt8) : mix key nonce (mix key nonce text) = text := by
  have hlen := length_mix key nonce text
  unfold mix at hlen ⊢
  dsimp only at hlen ⊢
  rw [hlen, List.mapIdx_mapIdx]
  refine List.ext_getElem List.length_mapIdx fun i _ _ => ?_
  rw [List.getElem_mapIdx, Function.comp, UInt8.xor_assoc, UInt8.xor_self, UInt8.xor_zero]

theorem decrypt_encrypt (plain : List UInt8) :
    decrypt key nonce (encrypt key nonce plain) = some plain := by
  have htake : (encrypt key nonce plain).take ((encrypt key nonce plain).length - 16) =
      mix key nonce plain := by
    rw [length_encrypt, Nat.add_sub_cancel, ← length_mix key nonce plain]
    exact List.take_left' rfl
  unfold decrypt
  dsimp only
  have hsealed : encrypt key nonce plain =
      mix key nonce plain ++ tag key nonce (mix key nonce plain) := rfl
  rw [htake, if_pos hsealed, mix_mix]

end XChaCha

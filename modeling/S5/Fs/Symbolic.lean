import S5.Fs.Context

/-!
# Symbolic byte strings

An instance of `Env` to run the model on: byte strings are the terms that encoding and encryption
build, so both undo themselves (`symbolic_lawful`) and nothing opens under a wrong key.
-/

open Std

namespace Fs

inductive Sym where
  | plain (d : DirV1)
  | sealed (key : Bytes32) (nonce : Nonce) (b : Sym)
  deriving DecidableEq

namespace Sym

/-- A digest that tells apart directories of different content sizes and references. -/
def digest : Sym → Nat
  | plain d =>
    d.dirs.foldl (fun n _ r => 7 * n + r.hash.toNat + 3) 0 +
      d.files.foldl (fun n _ f => 5 * n + f.hash.toNat + 1) 1000
  | sealed _ _ b => b.digest + 500000

def open? (key : Bytes32) : Sym → Option Sym
  | plain _ => none
  | sealed key' _ b => if key = key' then some b else none

def decode : Sym → Option DirV1
  | plain d => some d
  | sealed _ _ _ => none

end Sym

/-- An environment over symbolic bytes: a store that does not fail, a clock that ticks seconds and
keys that are never drawn twice. -/
def symbolic (xxh3_64 : String → UInt64) : Env Sym where
  toBytes := .plain
  fromBytes := Sym.decode
  len
    | .plain d => 64 + 100 * (d.dirs.size + d.files.size)
    | .sealed _ _ _ => 0
  blake3 b := BitVec.ofNat 256 b.digest
  encrypt := .sealed
  decrypt := Sym.open?
  xxh3_64 := xxh3_64
  random n := BitVec.ofNat 256 (n + 1)
  nonce n := BitVec.ofNat 192 n
  utcNow n := (UInt32.ofNat (n + 1), 0)
  -- the clock of a run does not get past its first minute
  rfc3339 now := s!"1970-01-01T00:00:{now.1 / 10}{now.1 % 10}+00:00"
  storeFails _ := false

theorem symbolic_lawful (xxh3_64 : String → UInt64) : (symbolic xxh3_64).Lawful where
  fromBytes_toBytes _ := rfl
  decrypt_encrypt key nonce b := by simp [symbolic, Sym.open?]

/-- XXH3 (64 bits, no seed) of an ASCII name of one to three characters; `0` for other names. -/
def xxh3Short (name : String) : UInt64 :=
  match name.toList.map (·.toNat.toUInt64) with
  | [c] => mix c c c 1
  | [c, d] => mix c d d 2
  | [c, d, e] => mix c d e 3
  | _ => 0
where
  /-- The bytes and the length against the secret, then the avalanche. -/
  mix (c1 c2 c3 len : UInt64) : UInt64 :=
    let h := ((c1 <<< 16) ||| (c2 <<< 24) ||| c3 ||| (len <<< 8)) ^^^ 0x87275a9b
    let h := (h ^^^ (h >>> 33)) * 0xC2B2AE3D27D4EB4F
    let h := (h ^^^ (h >>> 29)) * 0x165667B19E3779F9
    h ^^^ (h >>> 32)

example : xxh3Short "abc" = 0x78af5f94892f3950 := by decide

/-- A world in which nothing has been stored. -/
def emptyWorld : World Sym := ⟨∅, none, ∅, 0, false⟩

end Fs

import S5.Lib.BigEndian

/-!
# CBOR data items

The data items a derived encoder writes, and their bytes (RFC 8949): a head with the major type and
a length or number, then the content. `Item.write` uses the shortest head, as deterministic encoding
asks; `readItem` takes any head of definite length.

* `readItem_write`: what is written is read back, and what follows it is left.
-/

namespace Cbor

inductive Item where
  | uint (n : UInt64)
  | bytes (b : List UInt8)
  | text (s : String)
  | array (items : List Item)
  | map (entries : List (Item × Item))
  | bool (b : Bool)
  | null

/-! ## Writing -/

/-- The head of an item: three bits of major type, and the argument in the shortest form. -/
def head (major n : Nat) : List UInt8 :=
  if n < 24 then [UInt8.ofNat (32 * major + n)]
  else if n < 2 ^ 8 then UInt8.ofNat (32 * major + 24) :: BigEndian.bytes 1 n
  else if n < 2 ^ 16 then UInt8.ofNat (32 * major + 25) :: BigEndian.bytes 2 n
  else if n < 2 ^ 32 then UInt8.ofNat (32 * major + 26) :: BigEndian.bytes 4 n
  else UInt8.ofNat (32 * major + 27) :: BigEndian.bytes 8 n

mutual
def Item.write : Item → List UInt8
  | .uint n => head 0 n.toNat
  | .bytes b => head 2 b.length ++ b
  | .text s => head 3 s.toUTF8.data.toList.length ++ s.toUTF8.data.toList
  | .array items => head 4 items.length ++ writeItems items
  | .map entries => head 5 entries.length ++ writeEntries entries
  | .bool b => head 7 (if b then 21 else 20)
  | .null => head 7 22
def writeItems : List Item → List UInt8
  | [] => []
  | item :: items => item.write ++ writeItems items
def writeEntries : List (Item × Item) → List UInt8
  | [] => []
  | (key, value) :: entries => key.write ++ (value.write ++ writeEntries entries)
end

/-! ## Reading -/

/-- The next `n` bytes, and what follows. -/
def takeBytes (n : Nat) (bs : List UInt8) : Option (List UInt8 × List UInt8) :=
  if n ≤ bs.length then some (bs.take n, bs.drop n) else none

def readNumber (width : Nat) (bs : List UInt8) : Option (Nat × List UInt8) :=
  (takeBytes width bs).map fun (b, rest) => (BigEndian.value b, rest)

/-- Major type and argument of the next item. -/
def readHead : List UInt8 → Option (Nat × Nat × List UInt8)
  | [] => none
  | b :: bs =>
    let major := b.toNat / 32
    match b.toNat % 32 with
    | 24 => (readNumber 1 bs).map (major, ·)
    | 25 => (readNumber 2 bs).map (major, ·)
    | 26 => (readNumber 4 bs).map (major, ·)
    | 27 => (readNumber 8 bs).map (major, ·)
    | info => if info < 24 then some (major, info, bs) else none

/-- Reads `n` times. -/
def readMany {α : Type} (read : List UInt8 → Option (α × List UInt8)) :
    Nat → List UInt8 → Option (List α × List UInt8)
  | 0, bs => some ([], bs)
  | n + 1, bs => do
    let (x, bs) ← read bs
    let (xs, bs) ← readMany read n bs
    return (x :: xs, bs)

def readPair {α : Type} (read : List UInt8 → Option (α × List UInt8)) (bs : List UInt8) :
    Option ((α × α) × List UInt8) := do
  let (key, bs) ← read bs
  let (value, bs) ← read bs
  return ((key, value), bs)

/-- The next item. `fuel` bounds how deep items nest: the number of bytes is enough. -/
def readItem : Nat → List UInt8 → Option (Item × List UInt8)
  | 0, _ => none
  | fuel + 1, bs => do
    let (major, n, bs) ← readHead bs
    match major with
    | 0 => return (.uint (UInt64.ofNat n), bs)
    | 2 =>
      let (b, bs) ← takeBytes n bs
      return (.bytes b, bs)
    | 3 =>
      let (b, bs) ← takeBytes n bs
      let s ← String.fromUTF8? ⟨b.toArray⟩
      return (.text s, bs)
    | 4 =>
      let (items, bs) ← readMany (readItem fuel) n bs
      return (.array items, bs)
    | 5 =>
      let (entries, bs) ← readMany (readPair (readItem fuel)) n bs
      return (.map entries, bs)
    | 7 =>
      match n with
      | 20 => return (.bool false, bs)
      | 21 => return (.bool true, bs)
      | 22 => return (.null, bs)
      | _ => none
    | _ => none

/-! ## The round trip -/

theorem takeBytes_append (b rest : List UInt8) : takeBytes b.length (b ++ rest) = some (b, rest) := by
  simp [takeBytes]

theorem readNumber_bytes (width : Nat) {n : Nat} (h : n < 256 ^ width) (rest : List UInt8) :
    readNumber width (BigEndian.bytes width n ++ rest) = some (n, rest) := by
  have htake := takeBytes_append (BigEndian.bytes width n) rest
  rw [BigEndian.length_bytes] at htake
  unfold readNumber
  rw [htake, Option.map_some]
  dsimp only
  rw [BigEndian.value_bytes, Nat.mod_eq_of_lt h]

theorem head_ne_nil (major n : Nat) : head major n ≠ [] := by
  unfold head
  split
  · simp
  · split
    · simp
    · split
      · simp
      · split <;> simp

/-- **A head is read back.** -/
theorem readHead_head {major n : Nat} (hm : major < 8) (hn : n < 2 ^ 64) (rest : List UInt8) :
    readHead (head major n ++ rest) = some (major, n, rest) := by
  have hbyte : ∀ info < 32, (UInt8.ofNat (32 * major + info)).toNat / 32 = major ∧
      (UInt8.ofNat (32 * major + info)).toNat % 32 = info := by
    intro info hinfo
    rw [UInt8.toNat_ofNat']
    omega
  unfold head
  split
  · rename_i h24
    obtain ⟨hdiv, hmod⟩ := hbyte n (by omega)
    simp only [List.cons_append, List.nil_append, readHead, hdiv, hmod]
    split
    · omega
    · omega
    · omega
    · omega
    · rw [if_pos h24]
  · split
    · rename_i h8
      obtain ⟨hdiv, hmod⟩ := hbyte 24 (by omega)
      simp only [List.cons_append, readHead, hdiv, hmod, readNumber_bytes 1 (by omega),
        Option.map_some]
    · split
      · rename_i h16
        obtain ⟨hdiv, hmod⟩ := hbyte 25 (by omega)
        simp only [List.cons_append, readHead, hdiv, hmod, readNumber_bytes 2 (by omega),
          Option.map_some]
      · split
        · rename_i h32
          obtain ⟨hdiv, hmod⟩ := hbyte 26 (by omega)
          simp only [List.cons_append, readHead, hdiv, hmod, readNumber_bytes 4 (by omega),
            Option.map_some]
        · obtain ⟨hdiv, hmod⟩ := hbyte 27 (by omega)
          simp only [List.cons_append, readHead, hdiv, hmod, readNumber_bytes 8 (by omega),
            Option.map_some]

theorem length_head_pos (major n : Nat) : 0 < (head major n).length :=
  List.length_pos_iff.2 (head_ne_nil major n)

theorem Item.length_write_pos (item : Item) : 0 < item.write.length := by
  cases item <;> simp [Item.write, head_ne_nil, List.length_pos_iff]

theorem fromUTF8?_toUTF8 (s : String) : String.fromUTF8? ⟨s.toUTF8.data.toList.toArray⟩ = some s := by
  rw [Array.toArray_toList]
  exact dif_pos s.isValidUTF8

theorem length_writeItems (items : List Item) : items.length ≤ (writeItems items).length := by
  induction items with
  | nil => simp
  | cons item items ih =>
    have hpos := item.length_write_pos
    rw [writeItems, List.length_append, List.length_cons]
    omega

theorem length_writeEntries (entries : List (Item × Item)) :
    entries.length ≤ (writeEntries entries).length := by
  induction entries with
  | nil => simp
  | cons entry entries ih =>
    have hpos := entry.1.length_write_pos
    rw [writeEntries, List.length_append, List.length_append, List.length_cons]
    omega

-- The items inside an item have fewer bytes than it has, so the fuel left is enough for them, and
-- their lengths fit where its own does.
mutual
theorem readItem_write : ∀ (item : Item) (fuel : Nat) (rest : List UInt8),
    item.write.length ≤ fuel → item.write.length < 2 ^ 64 →
      readItem fuel (item.write ++ rest) = some (item, rest) := by
  intro item fuel rest hfuel hfits
  have hpos := item.length_write_pos
  obtain ⟨fuel, rfl⟩ : ∃ k, fuel = k + 1 := ⟨fuel - 1, by omega⟩
  cases item with
  | uint n =>
    have hn : n.toNat < 2 ^ 64 := n.toNat_lt
    simp only [Item.write, readItem, readHead_head (show 0 < 8 by omega) hn, Option.bind_eq_bind,
      Option.bind_some, UInt64.ofNat_toNat]
    rfl
  | bytes b =>
    simp only [Item.write, List.length_append] at hfits
    have hb : b.length < 2 ^ 64 := by omega
    simp only [Item.write, List.append_assoc, readItem, readHead_head (show 2 < 8 by omega) hb,
      Option.bind_eq_bind, Option.bind_some, takeBytes_append]
    rfl
  | text s =>
    simp only [Item.write, List.length_append] at hfits
    have hs : s.toUTF8.data.toList.length < 2 ^ 64 := by omega
    simp only [Item.write, List.append_assoc, readItem, readHead_head (show 3 < 8 by omega) hs,
      Option.bind_eq_bind, Option.bind_some, takeBytes_append, fromUTF8?_toUTF8]
    rfl
  | array items =>
    simp only [Item.write, List.length_append] at hfits hfuel
    have hlen := length_writeItems items
    have hhead := length_head_pos 4 items.length
    have hitems := readMany_write items fuel rest (by omega) (by omega)
    simp only [Item.write, List.append_assoc, readItem,
      readHead_head (show 4 < 8 by omega) (show items.length < 2 ^ 64 by omega),
      Option.bind_eq_bind, Option.bind_some, hitems]
    rfl
  | map entries =>
    simp only [Item.write, List.length_append] at hfits hfuel
    have hlen := length_writeEntries entries
    have hhead := length_head_pos 5 entries.length
    have hentries := readPairs_write entries fuel rest (by omega) (by omega)
    simp only [Item.write, List.append_assoc, readItem,
      readHead_head (show 5 < 8 by omega) (show entries.length < 2 ^ 64 by omega),
      Option.bind_eq_bind, Option.bind_some, hentries]
    rfl
  | bool b =>
    cases b with
    | false =>
      simp only [Item.write, readItem]
      rfl
    | true =>
      simp only [Item.write, readItem]
      rfl
  | null =>
    simp only [Item.write, readItem]
    rfl
theorem readMany_write : ∀ (items : List Item) (fuel : Nat) (rest : List UInt8),
    (writeItems items).length ≤ fuel → (writeItems items).length < 2 ^ 64 →
      readMany (readItem fuel) items.length (writeItems items ++ rest) = some (items, rest) := by
  intro items fuel rest hfuel hfits
  cases items with
  | nil => rfl
  | cons item items =>
    rw [writeItems, List.length_append] at hfuel hfits
    have hitem := readItem_write item fuel (writeItems items ++ rest) (by omega) (by omega)
    have hitems := readMany_write items fuel rest (by omega) (by omega)
    rw [writeItems, List.append_assoc, List.length_cons, readMany, hitem, Option.bind_eq_bind,
      Option.bind_some]
    dsimp only
    rw [hitems]
    rfl
theorem readPairs_write : ∀ (entries : List (Item × Item)) (fuel : Nat) (rest : List UInt8),
    (writeEntries entries).length ≤ fuel → (writeEntries entries).length < 2 ^ 64 →
      readMany (readPair (readItem fuel)) entries.length (writeEntries entries ++ rest) =
        some (entries, rest) := by
  intro entries fuel rest hfuel hfits
  cases entries with
  | nil => rfl
  | cons entry entries =>
    obtain ⟨key, value⟩ := entry
    rw [writeEntries, List.length_append, List.length_append] at hfuel hfits
    have hkey := readItem_write key fuel (value.write ++ (writeEntries entries ++ rest))
      (by omega) (by omega)
    have hvalue := readItem_write value fuel (writeEntries entries ++ rest)
      (by omega) (by omega)
    have hentries := readPairs_write entries fuel rest (by omega) (by omega)
    have hpair : readPair (readItem fuel)
        (key.write ++ (value.write ++ (writeEntries entries ++ rest))) =
          some ((key, value), writeEntries entries ++ rest) := by
      rw [readPair, hkey, Option.bind_eq_bind, Option.bind_some]
      dsimp only
      rw [hvalue]
      rfl
    rw [writeEntries, List.append_assoc, List.append_assoc, List.length_cons, readMany, hpair,
      Option.bind_eq_bind, Option.bind_some]
    dsimp only
    rw [hentries]
    rfl
end

end Cbor

import S5.Lib.Cbor
import S5.Lib.Map

/-!
# Derived CBOR encodings

How values are put into data items by a derived encoder: integers, strings, sequences and maps as
themselves, a record as a map from field numbers or as an array, an enumeration by its index. A
`Codec` carries its round trip, so that one made of others has it from them.

A record's fields are looked up by number (`find`): fields nobody asked for are skipped, and of two
with one number the later counts. A missing or null optional field is `none`; `none` is not written.
-/

open Std

namespace Cbor

variable {α β : Type}

/-- An encoding that can be undone. Null is left for a missing value. -/
structure Codec (α : Type) where
  encode : α → Item
  decode : Item → Option α
  decode_encode : ∀ a, decode (encode a) = some a
  encode_ne_null : ∀ a, encode a ≠ .null

namespace Codec

/-- `minicbor::to_vec`. -/
def toVec (c : Codec α) (a : α) : List UInt8 := (c.encode a).write

/-- `minicbor::decode`: the first item, whatever follows it. -/
def ofSlice (c : Codec α) (bs : List UInt8) : Option α := do
  let (item, _) ← readItem bs.length bs
  c.decode item

/-- **The round trip through bytes**, of which there are no more than a length counts. -/
theorem ofSlice_toVec (c : Codec α) (a : α) (h : (c.toVec a).length < 2 ^ 64) :
    c.ofSlice (c.toVec a) = some a := by
  have hread := readItem_write (c.encode a) (c.toVec a).length [] (Nat.le_refl _) h
  rw [List.append_nil] at hread
  change readItem (c.toVec a).length (c.toVec a) = some (c.encode a, []) at hread
  unfold ofSlice
  rw [hread]
  exact c.decode_encode a

/-! ## Numbers and strings -/

def u64 : Codec UInt64 where
  encode n := .uint n
  decode
    | .uint n => some n
    | _ => none
  decode_encode _ := rfl
  encode_ne_null _ := Item.noConfusion

/-- A narrower integer; a number that is too large is an error. -/
def narrow (toNat : α → Nat) (ofNat : Nat → α) (bound : Nat) (hb : bound ≤ 2 ^ 64)
    (hlt : ∀ a, toNat a < bound) (hof : ∀ a, ofNat (toNat a) = a) : Codec α where
  encode a := .uint (UInt64.ofNat (toNat a))
  decode
    | .uint n => if n.toNat < bound then some (ofNat n.toNat) else none
    | _ => none
  decode_encode a := by
    have hn : (UInt64.ofNat (toNat a)).toNat = toNat a :=
      UInt64.toNat_ofNat_of_lt' (Nat.lt_of_lt_of_le (hlt a) hb)
    dsimp only
    rw [hn, if_pos (hlt a), hof]
  encode_ne_null _ := Item.noConfusion

def u8 : Codec UInt8 :=
  narrow UInt8.toNat UInt8.ofNat (2 ^ 8) (by omega) UInt8.toNat_lt (fun a => UInt8.ofNat_toNat)

def u16 : Codec UInt16 :=
  narrow UInt16.toNat UInt16.ofNat (2 ^ 16) (by omega) UInt16.toNat_lt (fun a => UInt16.ofNat_toNat)

def u32 : Codec UInt32 :=
  narrow UInt32.toNat UInt32.ofNat (2 ^ 32) (by omega) UInt32.toNat_lt (fun a => UInt32.ofNat_toNat)

def bool : Codec Bool where
  encode b := .bool b
  decode
    | .bool b => some b
    | _ => none
  decode_encode _ := rfl
  encode_ne_null _ := Item.noConfusion

def string : Codec String where
  encode s := .text s
  decode
    | .text s => some s
    | _ => none
  decode_encode _ := rfl
  encode_ne_null _ := Item.noConfusion

/-- `Vec<u8>` under `minicbor::bytes`. -/
def bytes : Codec (List UInt8) where
  encode b := .bytes b
  decode
    | .bytes b => some b
    | _ => none
  decode_encode _ := rfl
  encode_ne_null _ := Item.noConfusion

/-- `[u8; n]`, as the number its bytes spell. -/
def ofFixed (n : Nat) (b : List UInt8) : Option (BitVec (8 * n)) :=
  if b.length = n then some (BitVec.ofNat (8 * n) (BigEndian.value b)) else none

theorem ofFixed_bytes (n : Nat) (x : BitVec (8 * n)) :
    ofFixed n (BigEndian.bytes n x.toNat) = some x := by
  have hpow : 256 ^ n = 2 ^ (8 * n) := (Nat.pow_mul 2 8 n).symm
  unfold ofFixed
  rw [if_pos (BigEndian.length_bytes n x.toNat), BigEndian.value_bytes, hpow]
  simp

/-- `[u8; n]` under `minicbor::bytes`. -/
def byteArray (n : Nat) : Codec (BitVec (8 * n)) where
  encode x := .bytes (BigEndian.bytes n x.toNat)
  decode
    | .bytes b => ofFixed n b
    | _ => none
  decode_encode x := ofFixed_bytes n x
  encode_ne_null _ := Item.noConfusion

/-! ## Sequences and maps -/

theorem mapM_encode {γ : Type} (decode : γ → Option α) (encode : α → γ)
    (h : ∀ a, decode (encode a) = some a) (as : List α) : (as.map encode).mapM decode = some as := by
  induction as with
  | nil => rfl
  | cons a as ih => simp [h, ih]

def vec (c : Codec α) : Codec (List α) where
  encode as := .array (as.map c.encode)
  decode
    | .array items => items.mapM c.decode
    | _ => none
  decode_encode as := mapM_encode c.decode c.encode c.decode_encode as
  encode_ne_null _ := Item.noConfusion

/-- `[u8; n]` without `minicbor::bytes`: an array of integers. -/
def u8Array (n : Nat) : Codec (BitVec (8 * n)) where
  encode x := u8.vec.encode (BigEndian.bytes n x.toNat)
  decode item := do
    let b ← u8.vec.decode item
    ofFixed n b
  decode_encode x := by
    rw [u8.vec.decode_encode]
    exact ofFixed_bytes n x
  encode_ne_null x := u8.vec.encode_ne_null _

def pair (c : Codec α) (d : Codec β) : Codec (α × β) where
  encode p := .array [c.encode p.1, d.encode p.2]
  decode
    | .array [a, b] => do return (← c.decode a, ← d.decode b)
    | _ => none
  decode_encode p := by simp [c.decode_encode, d.decode_encode]
  encode_ne_null _ := Item.noConfusion

/-- `()` is an empty array. -/
def unit : Codec Unit where
  encode _ := .array []
  decode
    | .array [] => some ()
    | _ => none
  decode_encode _ := rfl
  encode_ne_null _ := Item.noConfusion

def btreeMap [Ord α] [TransOrd α] [LawfulEqOrd α] (c : Codec α) (d : Codec β) :
    Codec (ExtTreeMap α β) where
  encode m := .map (m.toList.map fun kv => (c.encode kv.1, d.encode kv.2))
  decode
    | .map entries => do
      let kvs ← entries.mapM fun (k, v) => do return (← c.decode k, ← d.decode v)
      return kvs.foldl (fun m kv => m.insert kv.1 kv.2) ∅
    | _ => none
  decode_encode m := by
    have hkvs := mapM_encode
      (fun kv : Item × Item => do return (← c.decode kv.1, ← d.decode kv.2))
      (fun kv : α × β => (c.encode kv.1, d.encode kv.2))
      (fun kv => by simp [c.decode_encode, d.decode_encode]) m.toList
    dsimp only
    rw [hkvs]
    exact congrArg some (ExtTreeMap.foldl_insert_toList m)
  encode_ne_null _ := Item.noConfusion

/-- `#[cbor(index_only)]`: an enumeration by the indices of its values. -/
def indexOnly (index : α → UInt64) (values : List α)
    (h : ∀ a, values.find? (fun b => index b = index a) = some a) : Codec α where
  encode a := .uint (index a)
  decode
    | .uint n => values.find? fun b => index b = n
    | _ => none
  decode_encode a := h a
  encode_ne_null _ := Item.noConfusion

end Codec

/-! ## Records -/

abbrev Fields := List (Nat × Item)

/-- The field of a number; a later one replaces an earlier. -/
def Fields.find (fields : Fields) (number : Nat) : Option Item := fields.reverse.lookup number

/-- `#[cbor(map)]`: the fields that are there, under their numbers. -/
def mapRecord (fields : List (Nat × Option Item)) : Item :=
  .map (fields.filterMap fun (number, item) => item.map (.uint (UInt64.ofNat number), ·))

def mapFields : Item → Option Fields
  | .map entries => entries.mapM fun (key, item) =>
    match key with
    | .uint number => some (number.toNat, item)
    | _ => none
  | _ => none

/-- Items numbered by their places. -/
def places (items : List Item) : Fields := items.zipIdx.map Prod.swap

/-- `#[cbor(array)]`: the fields at their places. -/
def arrayFields : Item → Option Fields
  | .array items => some (places items)
  | _ => none

/-- `#[cbor(flat)]`: the index of the variant, and its fields at the places behind it. -/
def flatFields : Item → Option (Nat × Fields)
  | .array (.uint index :: items) => some (index.toNat, places items)
  | _ => none

namespace Fields

def required (fields : Fields) (number : Nat) (decode : Item → Option α) : Option α := do
  let item ← fields.find number
  decode item

def optional (fields : Fields) (number : Nat) (decode : Item → Option α) : Option (Option α) :=
  match fields.find number with
  | none => some none
  | some .null => some none
  | some item => (decode item).map some

/-- `#[cbor(default)]`. -/
def defaulted (fields : Fields) (number : Nat) (decode : Item → Option α) (default : α) : Option α :=
  match fields.find number with
  | none => some default
  | some item => decode item

/-- The fields of a record that are there. -/
def present (fields : List (Nat × Option Item)) : Fields :=
  fields.filterMap fun (number, item) => item.map (number, ·)

theorem find_cons (field : Nat × Item) (fields : Fields) (number : Nat) :
    find (field :: fields) number =
      (find fields number).or (if number = field.1 then some field.2 else none) := by
  obtain ⟨n, item⟩ := field
  unfold find
  rw [List.reverse_cons, List.lookup_append, List.lookup_cons]
  by_cases h : number = n
  · simp [h]
  · have hb : (number == n) = false := beq_false_of_ne h
    simp [h, hb]

theorem find_zipIdx (items : List Item) (start number : Nat) :
    find ((items.zipIdx start).map Prod.swap) number =
      if start ≤ number then items[number - start]? else none := by
  induction items generalizing start with
  | nil => simp [find]
  | cons item items ih =>
    have hcons := find_cons (start, item) ((items.zipIdx (start + 1)).map Prod.swap) number
    change find (((item :: items).zipIdx start).map Prod.swap) number = _ at hcons
    dsimp only at hcons
    rw [hcons, ih]
    rcases Nat.lt_trichotomy start number with h | rfl | h
    · have hsub : number - start = (number - (start + 1)) + 1 := by omega
      rw [if_pos (show start + 1 ≤ number by omega), if_neg (show number ≠ start by omega),
        if_pos (show start ≤ number by omega), hsub, List.getElem?_cons_succ, Option.or_none]
    · rw [if_neg (by omega), if_pos rfl, if_pos (Nat.le_refl _), Nat.sub_self,
        List.getElem?_cons_zero, Option.none_or]
    · rw [if_neg (show ¬ start + 1 ≤ number by omega), if_neg (show number ≠ start by omega),
        if_neg (show ¬ start ≤ number by omega), Option.or_none]

/-- The fields of an array are its items. -/
@[simp] theorem find_places (items : List Item) (number : Nat) :
    find (places items) number = items[number]? := by
  rw [places, find_zipIdx, if_pos (Nat.zero_le _), Nat.sub_zero]

theorem find_eq_none {fields : List (Nat × Option Item)} {number : Nat}
    (h : number ∉ fields.map Prod.fst) : find (present fields) number = none := by
  induction fields with
  | nil => rfl
  | cons field fields ih =>
    obtain ⟨n, item⟩ := field
    obtain ⟨hne, hrest⟩ := not_or.1 (mt List.mem_cons.2 h)
    cases item with
    | none => exact ih hrest
    | some item =>
      have hfind := find_cons (n, item) (present fields) number
      rw [ih hrest, if_neg hne] at hfind
      exact hfind

/-- Distinct numbers keep the fields apart. -/
theorem find_present {fields : List (Nat × Option Item)} (hn : (fields.map Prod.fst).Nodup)
    {number : Nat} {item : Option Item} (hm : (number, item) ∈ fields) :
    find (present fields) number = item := by
  induction fields with
  | nil => cases hm
  | cons field fields ih =>
    obtain ⟨n, first⟩ := field
    obtain ⟨hnot, hrest⟩ := List.nodup_cons.1 hn
    rcases List.mem_cons.1 hm with heq | hlater
    · obtain ⟨rfl, rfl⟩ := Prod.mk.inj heq
      cases item with
      | none =>
        have hfind := find_eq_none hnot
        exact hfind
      | some item =>
        have hfind := find_cons (number, item) (present fields) number
        rw [find_eq_none hnot, if_pos rfl] at hfind
        exact hfind
    · have hne : number ≠ n := by
        rintro rfl
        exact hnot (List.mem_map.2 ⟨_, hlater, rfl⟩)
      cases first with
      | none => exact ih hrest hlater
      | some first =>
        have hfind := find_cons (n, first) (present fields) number
        rw [ih hrest hlater, if_neg hne, Option.or_none] at hfind
        exact hfind

section

variable {fields : List (Nat × Option Item)} (hn : (fields.map Prod.fst).Nodup) (number : Nat)

include hn

/-- **A field that is there is decoded.** -/
theorem required_present (c : Codec α) (a : α) (hm : (number, some (c.encode a)) ∈ fields) :
    (present fields).required number c.decode = some a := by
  unfold required
  rw [find_present hn hm]
  exact c.decode_encode a

/-- **So is one that may be missing.** -/
theorem optional_present_of {decode : Item → Option α} {encode : α → Item} (a : Option α)
    (hm : (number, a.map encode) ∈ fields) (hd : ∀ x, a = some x → decode (encode x) = some x)
    (hnull : ∀ x, encode x ≠ .null) : (present fields).optional number decode = some a := by
  unfold optional
  rw [find_present hn hm]
  cases a with
  | none => rfl
  | some x =>
    rw [Option.map_some]
    split
    · rename_i h
      cases h
    · rename_i h
      exact absurd (Option.some.inj h) (hnull x)
    · rename_i h
      obtain rfl := Option.some.inj h
      rw [hd x rfl]
      rfl

theorem optional_present (c : Codec α) (a : Option α) (hm : (number, a.map c.encode) ∈ fields) :
    (present fields).optional number c.decode = some a :=
  optional_present_of hn number a hm (fun x _ => c.decode_encode x) c.encode_ne_null

end

end Fields

theorem mapFields_mapRecord {fields : List (Nat × Option Item)}
    (h : ∀ number ∈ fields.map Prod.fst, number < 2 ^ 64) :
    mapFields (mapRecord fields) = some (Fields.present fields) := by
  unfold mapFields mapRecord
  dsimp only
  induction fields with
  | nil => rfl
  | cons field fields ih =>
    obtain ⟨number, item⟩ := field
    have hrest := ih fun n hn => h n (List.mem_cons_of_mem _ hn)
    have hnumber : (UInt64.ofNat number).toNat = number :=
      UInt64.toNat_ofNat_of_lt' (h number List.mem_cons_self)
    cases item with
    | none => simpa [Fields.present] using hrest
    | some item =>
      simp [hrest, hnumber, Fields.present]

/-- The fields of a record with distinct numbers below `2 ^ 64` are read back. -/
theorem mapFields_of_numbers {fields : List (Nat × Option Item)} {numbers : List Nat}
    (h : fields.map Prod.fst = numbers) (hn : numbers.Nodup ∧ ∀ number ∈ numbers, number < 2 ^ 64) :
    (fields.map Prod.fst).Nodup ∧ mapFields (mapRecord fields) = some (Fields.present fields) := by
  rw [← h] at hn
  exact ⟨hn.1, mapFields_mapRecord hn.2⟩

/-! ## Types that contain themselves -/

/-- Decodes level by level, at most `fuel` deep. -/
def decodeLevels (step : (Item → Option α) → Item → Option α) : Nat → Item → Option α
  | 0, _ => none
  | fuel + 1, item => step (decodeLevels step fuel) item

/-- The codec of a type that contains itself. Where `step` decodes a level, with the values inside it
decoded already, the whole is decoded: an item inside another has fewer bytes. -/
def Codec.recursive (encode : α → Item) (step : (Item → Option α) → Item → Option α)
    (h : ∀ self a, (∀ b, (encode b).write.length < (encode a).write.length →
      self (encode b) = some b) → step self (encode a) = some a)
    (hnull : ∀ a, encode a ≠ .null) : Codec α where
  encode := encode
  decode item := decodeLevels step item.write.length item
  decode_encode a := by
    have hlevels : ∀ fuel a, (encode a).write.length ≤ fuel →
        decodeLevels step fuel (encode a) = some a := by
      intro fuel
      induction fuel with
      | zero =>
        intro a ha
        have hpos := (encode a).length_write_pos
        omega
      | succ fuel ih =>
        intro a ha
        exact h _ a fun b hb => ih b (by omega)
    exact hlevels _ a (Nat.le_refl _)
  encode_ne_null := hnull

theorem length_write_lt_array {item : Item} {items : List Item} (h : item ∈ items) :
    item.write.length < (Item.array items).write.length := by
  have hhead := length_head_pos 4 items.length
  have hle : item.write.length ≤ (writeItems items).length := by
    clear hhead
    induction items with
    | nil => cases h
    | cons first items ih =>
      rw [writeItems, List.length_append]
      rcases List.mem_cons.1 h with rfl | h
      · omega
      · have hrest := ih h
        omega
  rw [Item.write, List.length_append]
  omega

theorem length_write_lt_map {key item : Item} {entries : List (Item × Item)}
    (h : (key, item) ∈ entries) : item.write.length < (Item.map entries).write.length := by
  have hhead := length_head_pos 5 entries.length
  have hle : item.write.length ≤ (writeEntries entries).length := by
    clear hhead
    induction entries with
    | nil => cases h
    | cons first entries ih =>
      rw [writeEntries, List.length_append, List.length_append]
      rcases List.mem_cons.1 h with rfl | h
      · dsimp only
        omega
      · have hrest := ih h
        omega
  rw [Item.write, List.length_append]
  omega

theorem length_write_lt_mapRecord {number : Nat} {item : Item} {fields : List (Nat × Option Item)}
    (h : (number, some item) ∈ fields) : item.write.length < (mapRecord fields).write.length :=
  length_write_lt_map (List.mem_filterMap.2 ⟨_, h, rfl⟩)

end Cbor

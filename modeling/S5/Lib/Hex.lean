import Mathlib.Logic.Function.Basic

/-!
# Hexadecimal text

Two digits a byte, in lower case. The text tells the bytes (`encode_injective`).
-/

namespace Hex

def digit (n : Nat) : Char := Nat.digitChar n

def encode (bytes : List UInt8) : String :=
  String.ofList (bytes.flatMap fun b => [digit (b.toNat / 16), digit (b.toNat % 16)])

theorem digit_inj {m n : Nat} (hm : m < 16) (hn : n < 16) (h : digit m = digit n) :
    m = n := by
  have hall : ∀ m n : Fin 16, digit m = digit n → m = n := by decide +kernel
  exact congrArg Fin.val (hall ⟨m, hm⟩ ⟨n, hn⟩ h)

theorem encode_injective : Function.Injective encode := by
  intro as bs h
  have hlist := String.ofList_injective h
  clear h
  induction as generalizing bs with
  | nil =>
    cases bs with
    | nil => rfl
    | cons b bs => simp at hlist
  | cons a as ih =>
    cases bs with
    | nil => simp at hlist
    | cons b bs =>
      simp only [List.flatMap_cons, List.cons_append, List.nil_append, List.cons.injEq] at hlist
      obtain ⟨hhigh, hlow, hrest⟩ := hlist
      have ha := a.toNat_lt
      have hb := b.toNat_lt
      have h1 := digit_inj (by omega) (by omega) hhigh
      have h2 := digit_inj (by omega) (by omega) hlow
      have hab : a = b := UInt8.toNat_inj.1 (by omega)
      rw [hab, ih hrest]

@[simp] theorem length_encode (bytes : List UInt8) :
    (encode bytes).toList.length = 2 * bytes.length := by
  unfold encode
  rw [String.toList_ofList]
  induction bytes with
  | nil => rfl
  | cons b bytes ih =>
    rw [List.flatMap_cons, List.length_append, ih, List.length_cons]
    simp
    omega

end Hex

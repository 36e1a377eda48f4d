import MetaDedup.Server.DataStruct

/-! # File names in messages

The client names a file on a server after the path of the uploaded file and the index
of the server. The server keeps such a file in a directory of its own and rewrites the
separators in the name first. Names are as long as they are: the buffers of 256 bytes
they are built in are not modelled. -/

namespace MetaDedup.Wire

open Server (slash)

def ascii (text : List Char) : List Byte := text.map fun char => BitVec.ofNat 8 char.toNat

/-- A number as `%d` prints it. -/
def decimal (value : Nat) : List Byte := ascii (Nat.toDigits 10 value)

private theorem ofNat_decimal (value : Nat) :
    (decimal value).map (fun byte => Char.ofNat byte.toNat) = Nat.toDigits 10 value := by
  rw [decimal, ascii, List.map_map]
  refine (List.map_congr_left ?_).trans (List.map_id _)
  intro char member
  have digit := Nat.isDigit_of_mem_toDigits (by decide) (by decide) member
  simp only [Char.isDigit, ge_iff_le, Bool.and_eq_true, decide_eq_true_eq] at digit
  have small : char.toNat < 2 ^ 8 := Nat.lt_of_le_of_lt digit.2 (by decide)
  rw [Function.comp_apply, BitVec.toNat_ofNat, Nat.mod_eq_of_lt small, Char.ofNat_toNat, id]

private theorem decimal_injective : Function.Injective decimal := by
  intro left right equal
  have digits : Nat.toDigits 10 left = Nat.toDigits 10 right := by
    rw [← ofNat_decimal, ← ofNat_decimal, equal]
  calc
    left = Nat.ofDigitChars 10 (Nat.toDigits 10 left) 0 :=
      Nat.ofDigitChars_ten_toDigits.symm
    _ = Nat.ofDigitChars 10 (Nat.toDigits 10 right) 0 := by rw [digits]
    _ = right := Nat.ofDigitChars_ten_toDigits

/-- The name under which a key recipe is sent, `%s-share-%d-enc.key`. -/
def encFileName (name : List Byte) (index : Nat) : List Byte :=
  name ++ ascii ['-', 's', 'h', 'a', 'r', 'e', '-'] ++ decimal index ++
    ascii ['-', 'e', 'n', 'c', '.', 'k', 'e', 'y']

theorem encFileName_injective (name : List Byte) : Function.Injective (encFileName name) := by
  intro left right equal
  rw [encFileName, encFileName] at equal
  exact decimal_injective (List.append_cancel_left (List.append_cancel_right equal))

/-- The name under which a retrieved recipe is sent, `%s-%d.recipe`. -/
def uploadRecipeFileName (name : List Byte) (index : Nat) : List Byte :=
  name ++ ascii ['-'] ++ decimal index ++ ascii ['.', 'r', 'e', 'c', 'i', 'p', 'e']

def underscore : Byte := 95

/-- The loop of the server over a received name: up to the final zero byte, every
separator but one at the very beginning becomes an underscore. -/
def rewriteName (name : List Byte) : List Byte :=
  match name.takeWhile (· != 0) with
  | [] => []
  | first :: rest => first :: rest.map fun byte => if byte = slash then underscore else byte

/-- The file of a directory that a rewritten name stands for. A separator at the
beginning follows the one after the directory, so it makes no difference. -/
def directoryEntry (name : List Byte) : List Byte :=
  match rewriteName name with
  | [] => []
  | first :: rest => if first = slash then rest else first :: rest

end MetaDedup.Wire

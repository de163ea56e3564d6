import Mathlib.Logic.Equiv.List

/-!
# Values as tallies

A lawful format of any countable type: the number of a value, as that many bytes.  It stands for a
format of which nothing matters but that what is written is read back.
-/

namespace Tally

instance encodableChar : Encodable Char :=
  Encodable.ofLeftInjection Char.toNat (fun n => some (Char.ofNat n)) fun c => by
    rw [Char.ofNat_toNat]

instance encodableString : Encodable String :=
  Encodable.ofLeftInjection String.toList (fun l => some (String.ofList l)) fun s => by
    rw [String.ofList_toList]

variable {α : Type} [Encodable α]

/-- A value, behind a null byte and some bytes that do not count. -/
def write (idle : ℕ) (x : α) : List UInt8 :=
  0 :: (List.replicate idle 1 ++ List.replicate (Encodable.encode x) 2)

def read (bytes : List UInt8) : Option α := Encodable.decode (bytes.count 2)

theorem read_write (idle : ℕ) (x : α) : read (write idle x) = some x := by
  have hcount : (write idle x).count 2 = Encodable.encode x := by
    unfold write
    rw [List.count_cons_of_ne (by decide), List.count_append, List.count_replicate,
      List.count_replicate_self, if_neg (by decide), Nat.zero_add]
  rw [read, hcount, Encodable.encodek]

/-- It is no text that begins otherwise. -/
theorem write_ne {idle : ℕ} {x : α} {bytes : List UInt8} {b : UInt8} (hhead : bytes.head? = some b)
    (hb : 0 ≠ b) : write idle x ≠ bytes := by
  rintro rfl
  exact hb (Option.some.inj hhead)

theorem length_write (idle : ℕ) (x : α) : idle < (write idle x).length := by
  unfold write
  rw [List.length_cons, List.length_append, List.length_replicate]
  omega

end Tally

import Compander.SetupError

/-!
# Memory

Before a stream starts, room is asked for once for each buffer that it needs. Whether
there is any is for the machine to say on which it runs, so it is a parameter of
everything that asks: `Memory` is what the machine says, and nothing is known of it but
that it makes no difference to a shorter buffer that a longer one would fit as well.

* `Memory` — whether there is room for a buffer;
* `Storage.reserve` — asking for it;
* `Memory.host` — the machine that programs are run on here.

A buffer that there is no room for is an error like any other: what is being set up is
not set up, and what was there before stays.

What the machine says may depend on what the buffer is for, but not on when it is asked:
a stream that has been set up once can be set up again.
-/

namespace Compander

/-- A machine, by what it says to those who ask for room. Everything that is proved about
setting streams up is proved for any machine. -/
class Memory where
  /-- whether there is room for a buffer of so many elements -/
  hasRoom : Storage → Nat → Bool
  /-- where there is room for a buffer there is room for a shorter one -/
  hasRoom_of_le {storage : Storage} {length length' : Nat} :
    length ≤ length' → hasRoom storage length' = true → hasRoom storage length = true

/-- Asks for room for a buffer of so many elements, and fails with the error of that buffer if
there is none. -/
def Storage.reserve [Memory] (storage : Storage) (length : Nat) : Except SetupError Unit :=
  if Memory.hasRoom storage length then .ok () else .error (.tooLarge storage length)

theorem Storage.reserve_eq_ok_iff [Memory] {storage : Storage} {length : Nat} :
    storage.reserve length = .ok () ↔ Memory.hasRoom storage length = true := by
  rw [reserve]
  split <;> simp_all

/-- The size of one element of a buffer in bytes, by which the host reckons how large a buffer
is. -/
def Storage.elementBytes : Storage → Nat
  | knots | pieces => 16
  | followers => 12
  | rings => 24
  | ring _ => 4

/-- The machine that programs are run on here: it has 8 GiB for every buffer, whichever others
there are. -/
instance Memory.host : Memory where
  hasRoom storage length := decide (storage.elementBytes * length ≤ 0x200000000)
  hasRoom_of_le hle h :=
    decide_eq_true (Nat.le_trans (Nat.mul_le_mul_left _ hle) (of_decide_eq_true h))

theorem Memory.hasRoom_host {storage : Storage} {length : Nat}
    (h : storage.elementBytes * length ≤ 0x200000000) : host.hasRoom storage length = true :=
  decide_eq_true h

end Compander

import LunarOS.Logic.LongMode
import LunarOS.Machine.Word

/-!
# Segment descriptors (`boot.h`)

`DECLARE_GDT_ENTRY` puts the fields of a descriptor together. The mask of the base lets 12 bits
through where a descriptor has 24, so bits 12 to 23 of a base are lost; all other fields come out
as they went in (`gdtEntry_exact`).
-/

namespace LunarOS

open Logic

def GDT_FLAG_64BIT_MODE : Nat := 1 <<< 1
def GDT_ACCESS_PRESENT : Nat := 1 <<< 7
def GDT_ACCESS_PRIVILEGE_RING0 : Nat := 0x0 <<< 5
def GDT_ACCESS_EXECUTABLE : Nat := 1 <<< 3
def GDT_TABLE_SIZE : Nat := 0x800

/-- `DECLARE_GDT_ENTRY` -/
def declareGdtEntry (base limit flags access : Nat) : Nat :=
  (base >>> 24 &&& 0xFF) <<< 56 ||| (flags &&& 0xF) <<< 52 ||| (limit >>> 16 &&& 0xF) <<< 48 |||
    ((access ||| 1 <<< 4) &&& 0xFF) <<< 40 ||| (base &&& 0xFFF) <<< 16 ||| (limit &&& 0xFFFF)

def GDT_KERNEL_ENTRY : Nat :=
  declareGdtEntry 0 0 GDT_FLAG_64BIT_MODE
    (GDT_ACCESS_PRESENT ||| GDT_ACCESS_PRIVILEGE_RING0 ||| GDT_ACCESS_EXECUTABLE)

/-! ## The fields -/

/-- A field below those that are there. -/
theorem or_field {x n : Nat} (k : Nat) (hx : 2 ^ k ∣ x) (hn : n < 2 ^ k) : x ||| n = x + n := by
  obtain ⟨q, rfl⟩ := hx
  rw [Nat.mul_comm]
  exact or_eq_add hn

/-- Six fields side by side: the base in two parts, the limit in two parts, the flags and the
access byte. -/
def packed (high flags top access base limit : Nat) : Nat :=
  high * 2 ^ 56 + flags * 2 ^ 52 + top * 2 ^ 48 + access * 2 ^ 40 + base * 2 ^ 16 + limit

section

variable {high flags top access base limit : Nat}

theorem or_packed (hFlags : flags < 2 ^ 4) (hTop : top < 2 ^ 4) (hAccess : access < 2 ^ 8)
    (hBase : base < 2 ^ 12) (hLimit : limit < 2 ^ 16) :
    high <<< 56 ||| flags <<< 52 ||| top <<< 48 ||| access <<< 40 ||| base <<< 16 ||| limit =
      packed high flags top access base limit := by
  have h1 : high * 2 ^ 56 ||| flags * 2 ^ 52 = high * 2 ^ 56 + flags * 2 ^ 52 :=
    or_field 56 (by omega) (by omega)
  have h2 := or_field (x := high * 2 ^ 56 + flags * 2 ^ 52) (n := top * 2 ^ 48) 52
    (by omega) (by omega)
  have h3 := or_field (x := high * 2 ^ 56 + flags * 2 ^ 52 + top * 2 ^ 48) (n := access * 2 ^ 40) 48
    (by omega) (by omega)
  have h4 := or_field (n := base * 2 ^ 16) 40
    (x := high * 2 ^ 56 + flags * 2 ^ 52 + top * 2 ^ 48 + access * 2 ^ 40) (by omega) (by omega)
  simp only [Nat.shiftLeft_eq]
  rw [h1, h2, h3, h4]
  exact or_field 16 (by omega) hLimit

theorem access_packed (hAccess : access < 2 ^ 8) (hBase : base < 2 ^ 12)
    (hLimit : limit < 2 ^ 16) :
    LongMode.access (packed high flags top access base limit) = access := by
  unfold LongMode.access LongMode.field packed
  omega

theorem flags_packed (hFlags : flags < 2 ^ 4) (hTop : top < 2 ^ 4) (hAccess : access < 2 ^ 8)
    (hBase : base < 2 ^ 12) (hLimit : limit < 2 ^ 16) :
    LongMode.flags (packed high flags top access base limit) = flags := by
  unfold LongMode.flags LongMode.field packed
  omega

theorem limit_packed (hTop : top < 2 ^ 4) (hAccess : access < 2 ^ 8) (hBase : base < 2 ^ 12)
    (hLimit : limit < 2 ^ 16) :
    LongMode.limit (packed high flags top access base limit) = limit + top * 2 ^ 16 := by
  unfold LongMode.limit LongMode.field packed
  omega

theorem base_packed (hHigh : high < 2 ^ 8) (hFlags : flags < 2 ^ 4) (hTop : top < 2 ^ 4)
    (hAccess : access < 2 ^ 8) (hBase : base < 2 ^ 12) (hLimit : limit < 2 ^ 16) :
    LongMode.base (packed high flags top access base limit) = base + high * 2 ^ 24 := by
  unfold LongMode.base LongMode.field packed
  omega

end

theorem declareGdtEntry_eq (base limit flags access : Nat) :
    declareGdtEntry base limit flags access =
      packed (base / 2 ^ 24 % 2 ^ 8) (flags % 2 ^ 4) (limit / 2 ^ 16 % 2 ^ 4)
        ((access ||| 2 ^ 4) % 2 ^ 8) (base % 2 ^ 12) (limit % 2 ^ 16) := by
  have h8 (n : Nat) : n &&& 0xFF = n % 2 ^ 8 := Nat.and_two_pow_sub_one_eq_mod n 8
  have h4 (n : Nat) : n &&& 0xF = n % 2 ^ 4 := Nat.and_two_pow_sub_one_eq_mod n 4
  have h12 (n : Nat) : n &&& 0xFFF = n % 2 ^ 12 := Nat.and_two_pow_sub_one_eq_mod n 12
  have h16 (n : Nat) : n &&& 0xFFFF = n % 2 ^ 16 := Nat.and_two_pow_sub_one_eq_mod n 16
  unfold declareGdtEntry
  rw [h8, h4, h4, h8, h12, h16, Nat.shiftRight_eq_div_pow, Nat.shiftRight_eq_div_pow,
    Nat.shiftLeft_eq 1 4, Nat.one_mul]
  exact or_packed (Nat.mod_lt _ (by decide)) (Nat.mod_lt _ (by decide)) (Nat.mod_lt _ (by decide))
    (Nat.mod_lt _ (by decide)) (Nat.mod_lt _ (by decide))

/-- What a processor reads in a declared descriptor. -/
structure GdtEntry (base limit flags access d : Nat) : Prop where
  limit_eq : LongMode.limit d = limit
  flags_eq : LongMode.flags d = flags
  access_eq : LongMode.access d = access ||| 2 ^ 4
  base_iff : LongMode.base d = base ↔ base / 2 ^ 12 % 2 ^ 12 = 0
  /-- A jump at level 0 gets into 64-bit mode. -/
  jump_iff : ∀ c : LongMode.Control, c.Active →
    ((∃ cs, LongMode.loadCode c 0 0 d = .ok cs ∧ LongMode.SixtyFour c cs) ↔
      access.testBit 7 = true ∧ access.testBit 3 = true ∧ access / 2 ^ 5 % 4 = 0 ∧
        flags.testBit 1 = true ∧ flags.testBit 2 = false)

section

variable {base limit flags access : Nat}

theorem access_declared (hAccess : access < 2 ^ 8) :
    LongMode.access (declareGdtEntry base limit flags access) = access ||| 2 ^ 4 := by
  rw [declareGdtEntry_eq, access_packed (Nat.mod_lt _ (by decide)) (Nat.mod_lt _ (by decide))
    (Nat.mod_lt _ (by decide))]
  exact Nat.mod_eq_of_lt (Nat.or_lt_two_pow hAccess (by decide))

theorem flags_declared (hFlags : flags < 2 ^ 4) :
    LongMode.flags (declareGdtEntry base limit flags access) = flags := by
  rw [declareGdtEntry_eq, flags_packed (Nat.mod_lt _ (by decide)) (Nat.mod_lt _ (by decide))
    (Nat.mod_lt _ (by decide)) (Nat.mod_lt _ (by decide)) (Nat.mod_lt _ (by decide))]
  exact Nat.mod_eq_of_lt hFlags

theorem limit_declared (hLimit : limit < 2 ^ 20) :
    LongMode.limit (declareGdtEntry base limit flags access) = limit := by
  rw [declareGdtEntry_eq, limit_packed (Nat.mod_lt _ (by decide)) (Nat.mod_lt _ (by decide))
    (Nat.mod_lt _ (by decide)) (Nat.mod_lt _ (by decide))]
  omega

/-- Bits 12 to 23 are not there. -/
theorem base_declared (hBase : base < 2 ^ 32) :
    LongMode.base (declareGdtEntry base limit flags access) =
      base % 2 ^ 12 + base / 2 ^ 24 * 2 ^ 24 := by
  rw [declareGdtEntry_eq, base_packed (Nat.mod_lt _ (by decide)) (Nat.mod_lt _ (by decide))
    (Nat.mod_lt _ (by decide)) (Nat.mod_lt _ (by decide)) (Nat.mod_lt _ (by decide))
    (Nat.mod_lt _ (by decide))]
  omega

theorem ring_access : (access ||| 2 ^ 4) / 2 ^ 5 = access / 2 ^ 5 := by
  rw [Nat.or_div_two_pow]
  exact Nat.or_zero _

/-- At level 0 only descriptors of level 0 are allowed. -/
theorem allowed_zero (d : Nat) : LongMode.Allowed 0 0 d ↔ LongMode.dpl d = 0 := by
  unfold LongMode.Allowed
  split
  · exact Nat.le_zero
  · exact and_iff_right (Nat.le_refl 0)

theorem jump_declared {d : Nat} (hFlags : LongMode.flags d = flags)
    (hAccess : LongMode.access d = access ||| 2 ^ 4) {c : LongMode.Control} (hActive : c.Active) :
    (∃ cs, LongMode.loadCode c 0 0 d = .ok cs ∧ LongMode.SixtyFour c cs) ↔
      access.testBit 7 = true ∧ access.testBit 3 = true ∧ access / 2 ^ 5 % 4 = 0 ∧
        flags.testBit 1 = true ∧ flags.testBit 2 = false := by
  have hPresent : LongMode.Present d ↔ access.testBit 7 = true := by
    unfold LongMode.Present
    rw [hAccess, LongMode.testBit_set (by decide)]
  have hCode : LongMode.Code d ↔ access.testBit 3 = true := by
    unfold LongMode.Code
    rw [hAccess, LongMode.testBit_set (j := 3) (by decide)]
    exact and_iff_right (LongMode.testBit_set_self access 4)
  have hRing : LongMode.Allowed 0 0 d ↔ access / 2 ^ 5 % 4 = 0 := by
    rw [allowed_zero]
    unfold LongMode.dpl
    rw [hAccess, ring_access]
  have hLong : LongMode.Long d ↔ flags.testBit 1 = true := by
    unfold LongMode.Long
    rw [hFlags]
  have hBig : LongMode.Big d ↔ flags.testBit 2 = true := by
    unfold LongMode.Big
    rw [hFlags]
  rw [← hPresent, ← hCode, ← hRing, ← hLong, ← Bool.not_eq_true, ← hBig]
  constructor
  · rintro ⟨cs, hLoad, -, hMode⟩
    obtain ⟨⟨hC, hWidth, hAllowed, hP⟩, rfl⟩ := LongMode.loadCode_eq_ok.mp hLoad
    exact ⟨hP, hC, hAllowed, hMode, fun hB => hWidth ⟨hActive, hMode, hB⟩⟩
  · rintro ⟨hP, hC, hAllowed, hMode, hSmall⟩
    exact ⟨_, LongMode.loadCode_ok hC (fun h => hSmall h.2.2) hAllowed hP, hActive, hMode⟩

theorem gdtEntry_exact (hBase : base < 2 ^ 32) (hLimit : limit < 2 ^ 20) (hFlags : flags < 2 ^ 4)
    (hAccess : access < 2 ^ 8) :
    GdtEntry base limit flags access (declareGdtEntry base limit flags access) where
  limit_eq := limit_declared hLimit
  flags_eq := flags_declared hFlags
  access_eq := access_declared hAccess
  base_iff := by
    rw [base_declared hBase]
    omega
  jump_iff := fun _ hActive =>
    jump_declared (flags_declared hFlags) (access_declared hAccess) hActive

/-- A code segment that is meant to start at 4 KiB and starts at 0. -/
theorem gdtEntry_sample :
    GdtEntry 0x1000 0xFFFFF GDT_FLAG_64BIT_MODE (GDT_ACCESS_PRESENT ||| GDT_ACCESS_EXECUTABLE)
      (declareGdtEntry 0x1000 0xFFFFF GDT_FLAG_64BIT_MODE
        (GDT_ACCESS_PRESENT ||| GDT_ACCESS_EXECUTABLE)) :=
  gdtEntry_exact (by decide) (by decide) (by decide) (by decide)

end

end LunarOS

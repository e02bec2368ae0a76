import LunarOS.Boot.Tables

/-!
# The stores of `_start64`

`_start64` changes the tables it runs on, through their identity mapping. `start64Stores` lists
its stores in program order, and `start64_eq` shows that they are what `start64` does to memory.
Whether a store is still mapped when it is made is a question about the stores before it
(`Translated`): relinking the first entry of `pde` takes the identity mapping away, so every
later store finds its address only in the TLB (`translated_iff`).
-/

namespace LunarOS

open Logic

section

variable (s : BootSymbols)

/-- Addresses and values up to the reload of `%cr3`. -/
def start64Stores : List (Nat × Nat) :=
  [(s.address .pml4 + 257 * 8, s.address .pdpte ||| (MMU_PRESENT ||| MMU_WRITABLE)),
    (s.address .pdpte + 0, s.address .pde ||| (MMU_PRESENT ||| MMU_WRITABLE)),
    (s.address .pde + 0, s.address .pte ||| (MMU_PRESENT ||| MMU_WRITABLE)),
    (s.address .pml4 + 0, 0)] ++
  (List.range' 1 511).map fun rcx => (s.address .pde + rcx * 8, 0)

theorem length_start64Stores : (start64Stores s).length = 515 := by simp [start64Stores]

def storeAll (m : Nat → Nat) (stores : List (Nat × Nat)) : Nat → Nat :=
  stores.foldl (fun m store => movq m store.1 store.2) m

/-- Memory just before store `k`. -/
def beforeStore (m : Nat → Nat) (k : Nat) : Nat → Nat := storeAll m ((start64Stores s).take k)

/-- The tables in memory translate the address of store `k` when it is made. -/
def Translated (m : Nat → Nat) (k : Nat) : Prop :=
  ∃ address value, (start64Stores s)[k]? = some (address, value) ∧
    ∃ p, Paging.translate (beforeStore s m k) (s.address .pml4) address = some p

/-- No store depends on an old translation. -/
def NeedsNoTlb (m : Nat → Nat) : Prop := ∀ k < (start64Stores s).length, Translated s m k

end

variable {s : BootSymbols} {m : Nat → Nat} {c : Contents}

/-! ## The stores are what the code does -/

theorem storeAll_append (m : Nat → Nat) (xs ys : List (Nat × Nat)) :
    storeAll m (xs ++ ys) = storeAll (storeAll m xs) ys := List.foldl_append

theorem unmap_eq (n rcx : Nat) (m : Nat → Nat) (hCount : rcx + (n + 1) = 512) :
    Loop.run (unmapStep s) n (rcx, m) =
      some (storeAll m
        ((List.range' rcx (n + 1)).map fun rcx => (s.address .pde + rcx * 8, 0))) := by
  induction n generalizing rcx m with
  | zero =>
    obtain rfl : rcx = 511 := by omega
    rfl
  | succ n ih =>
    have hNext : add64 rcx 1 = rcx + 1 := add64_eq (by unfold wordSize; omega)
    have hStep : unmapStep s (rcx, m) = .inl (rcx + 1, movq m (s.address .pde + rcx * 8) 0) := by
      unfold unmapStep
      dsimp only
      rw [hNext, if_pos (by omega)]
    rw [Loop.run_succ_of_inl hStep, ih (rcx + 1) _ (by omega), List.range'_succ]
    rfl

theorem start64_eq (m : Nat → Nat) : start64 s m 510 = some (storeAll m (start64Stores s)) := by
  unfold start64 start64Stores
  rw [unmap_eq 510 1 _ rfl, storeAll_append]
  rfl

/-! ## What is mapped before a store -/

/-- Addresses of the first 2 MiB go through the first entry of every table. -/
theorem slot_low {a level : Nat} (ha : a < 2 ^ 21) : Paging.slot (level + 1) a = 0 := by
  have hWidth : 2 ^ 21 ≤ 2 ^ Paging.width (level + 1) :=
    Nat.pow_le_pow_right (by omega) (by unfold Paging.width; omega)
  unfold Paging.slot
  rw [Nat.div_eq_of_lt (by omega)]

theorem translate_low {a : Nat} (ha : a < 2 ^ 21) (m : Nat → Nat) (cr3 : Nat) :
    Paging.translate m cr3 a = Paging.walk m 3 cr3 a := if_pos (Or.inl (by omega))

/-- As long as the first entry of `pde` is a large page, low addresses stand for themselves. -/
theorem translate_identity (h : Holds s m c) (hTop : c .pml4 0 = s.address .pdpte + 3)
    (hDir : c .pdpte 0 = s.address .pde + 3) (hPage : c .pde 0 = 131) {a : Nat} (ha : a < 2 ^ 21) :
    Paging.translate m (s.address .pml4) a = some a := by
  have hEntry : c .pde (Paging.slot 1 a) = 0 * 2 ^ Paging.width 1 + 131 := by
    rw [slot_low ha, hPage]
    decide
  rw [translate_low ha, h.walk_link .pml4 .pdpte 2 (by rw [slot_low ha, hTop]),
    h.walk_link .pdpte .pde 1 (by rw [slot_low ha, hDir]),
    Paging.walk_page 0 (by decide) (by decide) (by decide) (by decide) (by decide)
      ((h.entry .pde 1 a).trans hEntry)]
  have hWidth : Paging.width (0 + 1) = 21 := rfl
  rw [hWidth]
  exact congrArg some (by omega)

/-- Behind the table `pte` nothing is mapped. -/
theorem translate_relinked (h : Holds s m c) (hTop : c .pml4 0 = s.address .pdpte + 3)
    (hDir : c .pdpte 0 = s.address .pde + 3) (hTable : c .pde 0 = s.address .pte + 3)
    (hEmpty : ∀ i, c .pte i = 0) {a : Nat} (ha : a < 2 ^ 21) :
    Paging.translate m (s.address .pml4) a = none := by
  rw [translate_low ha, h.walk_link .pml4 .pdpte 2 (by rw [slot_low ha, hTop]),
    h.walk_link .pdpte .pde 1 (by rw [slot_low ha, hDir]),
    h.walk_link .pde .pte 0 (by rw [slot_low ha, hTable])]
  exact h.walk_zero (hEmpty _)

theorem translate_unlinked (h : Holds s m c) (hTop : c .pml4 0 = 0) {a : Nat} (ha : a < 2 ^ 21) :
    Paging.translate m (s.address .pml4) a = none := by
  rw [translate_low ha]
  exact h.walk_zero (by rw [slot_low ha, hTop])

/-- Clearing entries of `pde` leaves the first entry of `pml4` alone. -/
theorem storeAll_unlinked (h : Holds s m c) (hTop : c .pml4 0 = 0) (rcxs : List Nat)
    (hBound : ∀ rcx ∈ rcxs, rcx < 512) :
    ∃ c', Holds s (storeAll m (rcxs.map fun rcx => (s.address .pde + rcx * 8, 0))) c' ∧
      c' .pml4 0 = 0 := by
  induction rcxs generalizing m c with
  | nil => exact ⟨c, h, hTop⟩
  | cons rcx rest ih =>
    have hNext := h.movq .pde (hBound rcx List.mem_cons_self) 0
    exact ih hNext ((Contents.set_of_ne c (by decide) _ _ _).trans hTop)
      fun x hx => hBound x (List.mem_cons_of_mem _ hx)

section

variable {n : Nat}

/-- The first three stores are made through the identity mapping, the fourth one is not. -/
theorem beforeStore_first (hPos : 0 < n) (h : Holds s m ((linkedContents s).withPages n)) {a : Nat}
    (ha : a < 2 ^ 21) : ∀ k ≤ 3, Paging.translate (beforeStore s m k) (s.address .pml4) a =
      if k < 3 then some a else none := by
  have hTop : (linkedContents s).withPages n .pml4 0 = s.address .pdpte + 3 := by
    simp [Contents.withPages, linkedContents, Contents.set]
  have hDir : (linkedContents s).withPages n .pdpte 0 = s.address .pde + 3 := by
    simp [Contents.withPages, linkedContents, Contents.set]
  have hPage : (linkedContents s).withPages n .pde 0 = 131 := by
    simp [Contents.withPages, hPos]
  have hEmpty : ∀ i, (linkedContents s).withPages n .pte i = 0 := by
    intro i
    simp [Contents.withPages, linkedContents, Contents.set]
  have h1 := h.movq .pml4 (i := 257) (by omega) (s.address .pdpte + 3)
  have h2 := h1.movq .pdpte (i := 0) (by omega) (s.address .pde + 3)
  have h3 := h2.movq .pde (i := 0) (by omega) (s.address .pte + 3)
  intro k hk
  unfold beforeStore start64Stores storeAll
  simp only [BootSymbols.link_eq]
  obtain rfl | rfl | rfl | rfl : k = 0 ∨ k = 1 ∨ k = 2 ∨ k = 3 := by omega
  · exact translate_identity h hTop hDir hPage ha
  · exact translate_identity h1 (by simpa [Contents.set] using hTop)
      (by simpa [Contents.set] using hDir) (by simpa [Contents.set] using hPage) ha
  · exact translate_identity h2 (by simpa [Contents.set] using hTop) (by simp [Contents.set])
      (by simpa [Contents.set] using hPage) ha
  · exact translate_relinked h3 (by simpa [Contents.set] using hTop) (by simp [Contents.set])
      (by simp [Contents.set]) (by simpa [Contents.set] using hEmpty) ha

/-- From the fifth store on the top table has no entry for low addresses. -/
theorem beforeStore_rest (h : Holds s m c) {a : Nat} (ha : a < 2 ^ 21) (k : Nat) :
    Paging.translate (beforeStore s m (4 + k)) (s.address .pml4) a = none := by
  have h4 := reuseTables_holds h
  have hTop : c.reused s .pml4 0 = 0 := by simp [Contents.reused, Contents.set]
  obtain ⟨c', h', hTop'⟩ := storeAll_unlinked h4 hTop ((List.range' 1 511).take k) (by
    intro rcx hMem
    have := List.mem_range'_1.mp (List.mem_of_mem_take hMem)
    omega)
  have hBefore : beforeStore s m (4 + k) = storeAll (reuseTables s m)
      (((List.range' 1 511).take k).map fun rcx => (s.address .pde + rcx * 8, 0)) := by
    unfold beforeStore start64Stores
    rw [List.take_append, storeAll_append, List.map_take]
    have hLess : 4 + k - 4 = k := by omega
    simp only [List.length_cons, List.length_nil, hLess]
    rw [List.take_of_length_le (by simp)]
    rfl
  rw [hBefore]
  exact translate_unlinked h' hTop' ha

end

/-- Every store goes to an entry of the tables. -/
theorem start64Stores_low (hLow : ∀ t, s.address t < 2 ^ 21) {address value : Nat}
    (hMem : (address, value) ∈ start64Stores s) : address < 2 ^ 21 := by
  have hRoom : ∀ t, ∀ i < 512, s.address t + i * 8 < 2 ^ 21 := by
    intro t i hi
    obtain ⟨f, hf⟩ := s.aligned t
    have := hLow t
    unfold PGSIZE at hf
    omega
  unfold start64Stores at hMem
  rcases List.mem_append.mp hMem with hFirst | hLoop
  · simp only [List.mem_cons, Prod.mk.injEq, List.not_mem_nil, or_false] at hFirst
    rcases hFirst with ⟨rfl, -⟩ | ⟨rfl, -⟩ | ⟨rfl, -⟩ | ⟨rfl, -⟩
    · exact hRoom .pml4 257 (by omega)
    · exact hRoom .pdpte 0 (by omega)
    · exact hRoom .pde 0 (by omega)
    · exact hRoom .pml4 0 (by omega)
  · obtain ⟨rcx, hRange, hEq⟩ := List.mem_map.mp hLoop
    obtain ⟨rfl, -⟩ := Prod.mk.inj hEq
    have := List.mem_range'_1.mp hRange
    exact hRoom .pde rcx (by omega)

/-- Exactly the first three of the 515 stores are made through the tables in memory. -/
theorem translated_iff {kernelEnd fuel : Nat} {m' : Nat → Nat} (hEnd : kernelEnd < 2 ^ 30)
    (hLow : ∀ t, s.address t < 2 ^ 21) (hZero : Holds s m fun _ _ => 0)
    (hMap : bootMmapKernel s kernelEnd (bootPageInit s m) fuel = some m') {k : Nat}
    (hk : k < (start64Stores s).length) : Translated s m' k ↔ k < 3 := by
  obtain ⟨m1, hRun, h⟩ := bootMmapKernel_holds hEnd hZero
  obtain rfl := Loop.Returns.unique ⟨_, hMap⟩ ⟨_, hRun⟩
  obtain ⟨⟨address, value⟩, hStore⟩ : ∃ store, (start64Stores s)[k]? = some store :=
    ⟨_, List.getElem?_eq_getElem hk⟩
  have ha := start64Stores_low hLow (List.mem_of_getElem? hStore)
  have hBefore : Translated s m' k ↔
      ∃ p, Paging.translate (beforeStore s m' k) (s.address .pml4) address = some p := by
    unfold Translated
    rw [hStore]
    constructor
    · rintro ⟨_, _, hSame, hp⟩
      obtain ⟨rfl, -⟩ := Prod.mk.inj (Option.some.inj hSame)
      exact hp
    · exact fun hp => ⟨address, value, rfl, hp⟩
  rw [hBefore]
  by_cases hFirst : k ≤ 3
  · rw [beforeStore_first (by omega) h ha k hFirst]
    split
    · next hLess => simp [hLess]
    · next hLast => simp [hLast]
  · obtain ⟨j, rfl⟩ := Nat.exists_eq_add_of_le (by omega : 4 ≤ k)
    rw [beforeStore_rest h ha]
    simp only [reduceCtorEq, exists_false, false_iff]
    omega

/-- The 64-bit bootstrap always depends on a translation that memory does not give any more. -/
theorem start64_needs_tlb {kernelEnd fuel : Nat} {m' : Nat → Nat} (hEnd : kernelEnd < 2 ^ 30)
    (hLow : ∀ t, s.address t < 2 ^ 21) (hZero : Holds s m fun _ _ => 0)
    (hMap : bootMmapKernel s kernelEnd (bootPageInit s m) fuel = some m') :
    ¬ NeedsNoTlb s m' ∧
      ∀ k < (start64Stores s).length, Translated s m' k ↔ k < 3 := by
  have hLength := length_start64Stores s
  refine ⟨fun h => ?_, fun k hk => translated_iff hEnd hLow hZero hMap hk⟩
  have hThird := h 3 (by omega)
  rw [translated_iff hEnd hLow hZero hMap (by omega)] at hThird
  omega

theorem sampleSymbols_low (t : Table) : sampleSymbols.address t < 2 ^ 21 := by
  cases t <;> decide

theorem start64_sample : ∃ m', bootMmapKernel sampleSymbols 0x180000
    (bootPageInit sampleSymbols fun _ => 0) 512 = some m' ∧ ¬ NeedsNoTlb sampleSymbols m' ∧
      ∀ k < (start64Stores sampleSymbols).length, Translated sampleSymbols m' k ↔ k < 3 := by
  have hZero : Holds sampleSymbols (fun _ => 0) fun _ _ => 0 := fun _ _ _ => rfl
  have hEnd : 0x180000 < 2 ^ 30 := by decide
  obtain ⟨m', hRun, -⟩ := bootMmapKernel_holds hEnd hZero
  exact ⟨m', hRun, start64_needs_tlb hEnd sampleSymbols_low hZero hRun⟩

/-- A kernel that ends at 1.5 MiB, with its tables from `0x103000` on: the store of 0 into the
first entry of `pml4` finds no page. -/
theorem stores_outlive_mapping : (∀ t, sampleSymbols.address t < 2 ^ 21) ∧
    (Holds sampleSymbols (fun _ => 0) fun _ _ => 0) ∧
    ∃ m', bootMmapKernel sampleSymbols 0x180000 (bootPageInit sampleSymbols fun _ => 0) 512 =
        some m' ∧
      (start64Stores sampleSymbols)[3]? = some (0x103000, 0) ∧
      Paging.translate (beforeStore sampleSymbols m' 3) 0x103000 0x103000 = none ∧
      ¬ NeedsNoTlb sampleSymbols m' := by
  have hZero : Holds sampleSymbols (fun _ => 0) fun _ _ => 0 := fun _ _ _ => rfl
  have hEnd : 0x180000 < 2 ^ 30 := by decide
  have hFourth : 3 < (start64Stores sampleSymbols).length := by
    rw [length_start64Stores]
    omega
  obtain ⟨m', hRun, hTables⟩ := bootMmapKernel_holds hEnd hZero
  refine ⟨sampleSymbols_low, hZero, m', hRun, rfl, ?_, fun h => ?_⟩
  · exact beforeStore_first (by decide) hTables (a := 0x103000) (by decide) 3 (by decide)
  · have hTranslated := h 3 hFourth
    rw [translated_iff hEnd sampleSymbols_low hZero hRun hFourth] at hTranslated
    omega

end LunarOS

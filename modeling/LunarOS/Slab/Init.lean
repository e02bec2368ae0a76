import LunarOS.Page.Contract
import LunarOS.Slab.Run

/-!
# `init_slab` never completes

`alloc_cache` applies `vmm_virt2phys` to the block it gets from `page_alloc`, which is a
physical address already. No physical address is in one of the two ranges that
`vmm_virt2phys` translates, so the first class panics.
-/

namespace LunarOS

/-- What `init_slab` must leave: full caches in the direct map, on blocks that hold them, for
the objects of one page each. -/
structure Initialised (s : Slabs) : Prop where
  ready : Ready s
  objects : ∀ i < slabClasses, ∃ c p, s.mem (s.cache i) = some c ∧ PGSIZE ∣ p ∧
    c.Full i (vmmPhys2virt p)
  cache : ∀ i < slabClasses, VMM_RESERVED_DM_START ≤ s.cache i ∧ s.cache i ≤ VMM_RESERVED_DM_END ∧
    ∃ p ref b, s.cache i = vmmPhys2virt p ∧ phys2page s.pages.m.physMem p = some ref ∧
      s.pages.buddies (s.pages.m.page ref).buddy = some b ∧
      cacheSize + 8 * (PGSIZE / objSize i) ≤ b.classSize (s.pages.m.page ref).order

/-- Physical addresses lie below both ranges. -/
theorem vmmVirt2phys_physical {p : Nat} (hp : p < VMM_KERNEL_START) :
    vmmVirt2phys p = .error (.panic "TODO") := by
  unfold vmmVirt2phys VMM_RESERVED_BOOT_START VMM_RESERVED_DM_START
  unfold VMM_KERNEL_START at *
  rw [if_neg (by omega), if_neg (by omega)]

/-- The cache of the first class asks for two pages. -/
theorem allocCache_first (s : Slabs) (fuel : Nat) : allocCache s 0 1 fuel = (do
    match ← pageAlloc s.pages 2 fuel with
    | (none, _) => .error (.panic "Not enough memory for SLAB allocator!")
    | (some cache, pages) => do
      let at_ ← vmmVirt2phys cache
      pure { s with pages, cache := fun j => if j = 0 then at_ else s.cache j }) := by
  have hRequest : add64 (add64 cacheSize (mul64 (mul64 1 PGSIZE / objSize 0) 8) / PGSIZE) 1 = 2 := by
    decide
  unfold allocCache
  dsimp only
  rewrite [hRequest]
  rfl

/-- The whole of `init_slab` waits for the first cache. -/
theorem initSlab_eq (s : Slabs) (fuel : Nat) :
    ∃ rest : Slabs → Outcome Slabs, initSlab s fuel = allocCache s 0 1 fuel >>= rest := by
  have hRange : List.range slabSizes.length = 0 :: List.range' 1 8 := rfl
  have hFirst : objSize 0 ≠ 0 := by decide
  unfold initSlab
  rw [hRange, List.foldlM_cons]
  unfold initClass
  rw [if_neg hFirst]
  exact ⟨_, bind_assoc _ _ _⟩

theorem initSlab_never {s : Slabs} (hPhysical : ∀ fuel p pages,
    pageAlloc s.pages 2 fuel = .ok (some p, pages) → p < VMM_KERNEL_START) :
    (∀ fuel p pages, pageAlloc s.pages 2 fuel = .ok (some p, pages) →
      initSlab s fuel = .error (.panic "TODO")) ∧
    ¬ ∃ fuel s', initSlab s fuel = .ok s' ∧ Initialised s' := by
  have hPanics : ∀ fuel p pages, pageAlloc s.pages 2 fuel = .ok (some p, pages) →
      initSlab s fuel = .error (.panic "TODO") := by
    intro fuel p pages hOk
    obtain ⟨rest, hInit⟩ := initSlab_eq s fuel
    rw [hInit, allocCache_first, hOk, ok_bind_eq]
    dsimp only
    rw [vmmVirt2phys_physical (hPhysical fuel p pages hOk)]
    rfl
  refine ⟨hPanics, ?_⟩
  rintro ⟨fuel, s', hOk, -⟩
  obtain ⟨rest, hInit⟩ := initSlab_eq s fuel
  have hDone := hInit ▸ hOk
  obtain ⟨s1, hCache, -⟩ := bind_eq_ok.mp hDone
  rw [allocCache_first] at hCache
  obtain ⟨⟨found, pages⟩, hAlloc, hCache⟩ := bind_eq_ok.mp hCache
  cases found with
  | none => cases hCache
  | some p =>
    rw [hPanics fuel p pages hAlloc] at hOk
    cases hOk

/-- The slabs after a boot, with any memory behind the caches. -/
def bootSlabs (st : PageState) (mem : Nat → Option Cache) : Slabs :=
  { pages := st, slabsAt := 0xffff800000130000, cache := fun _ => 0, mem }

theorem initSlab_sample : ∃ st st', pageAlloc st 2 20 = .ok (some 0x185000, st') ∧
    ∀ mem, initSlab (bootSlabs st mem) 20 = .error (.panic "TODO") := by
  obtain ⟨st, st', hBoot, hOk⟩ := boot_alloc roomyMap 0x10000 2 0x185000 (by decide +kernel)
  have hManaged := managed_of_reach roomyMap_physical bootState_environment hBoot ⟨[], .nil⟩
  refine ⟨st, st', hOk, fun mem => ?_⟩
  exact (initSlab_never (s := bootSlabs st mem)
    fun fuel p pages h => pageAlloc_physical hManaged h).1 20 0x185000 st' hOk

/-- A boot with 4 MiB at 1 MiB: the block of the first cache is at `0x185000`. -/
theorem first_cache_panics : ∃ st st',
    bootPages bootState 0xffff800000100000 roomyMap 0x10000 = .ok st ∧
    (∀ fuel p pages, pageAlloc st 2 fuel = .ok (some p, pages) → p < VMM_KERNEL_START) ∧
    pageAlloc st 2 20 = .ok (some 0x185000, st') ∧
    initSlab (bootSlabs st fun _ => none) 20 = .error (.panic "TODO") ∧
    ¬ ∃ s', initSlab (bootSlabs st fun _ => none) 20 = .ok s' ∧ Initialised s' := by
  obtain ⟨st, st', hBoot, hOk⟩ := boot_alloc roomyMap 0x10000 2 0x185000 (by decide +kernel)
  have hManaged := managed_of_reach roomyMap_physical bootState_environment hBoot ⟨[], .nil⟩
  have hPanics : initSlab (bootSlabs st fun _ => none) 20 = .error (.panic "TODO") := by
    obtain ⟨rest, hEq⟩ := initSlab_eq (bootSlabs st fun _ => none) 20
    have hFirst : pageAlloc (bootSlabs st fun _ => none).pages 2 20 =
        .ok (some 0x185000, st') := hOk
    rw [hEq, allocCache_first, hFirst, ok_bind_eq]
    dsimp only
    rw [vmmVirt2phys_physical (by decide)]
    rfl
  refine ⟨st, st', hBoot, fun fuel p pages hAlloc => pageAlloc_physical hManaged hAlloc, hOk,
    hPanics, ?_⟩
  rintro ⟨s', hInit, -⟩
  rw [hPanics] at hInit
  cases hInit

end LunarOS

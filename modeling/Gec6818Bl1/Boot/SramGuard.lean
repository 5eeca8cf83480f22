import Gec6818Bl1.Boot.SdmmcBoot

/-!
# What the SRAM check keeps out

`SDMMCBOOT` refuses a header whose image `[loadaddr, loadaddr + 0x400 + loadsize)` meets the
internal SRAM. The stores it then makes cover another range. They start at the *truncated* load
address, and end one sector past the header plus the size in *whole sectors*, a size computed in
wrapping 32-bit arithmetic.

**Footprint.** The stores of an accepted image cover exactly `storedLength` bytes from
`(MPTRS)loadaddr` on, so they stay outside the SRAM iff `ClearOfSram` holds of that address and
length. As the first of these stores already covers the header sector, an image whose header would
reach `*pTBI` (which lies in the SRAM) is on the failing side of the equivalence before the
loader reads a field back from the wrong place.
-/

namespace Gec6818Bl1

open ByteMem

variable {mode : OpMode} {σ : Type*}

/-! ## Blocks and the SRAM -/

/-- The `n` bytes from `p` on end at or before the SRAM, or start after it and do not wrap
around into it. -/
def ClearOfSram (p : BitVec mode.width) (n : ℕ) : Prop :=
  if p.toNat < 2 ^ 32 then p.toNat + n ≤ baseaddrSram else p.toNat + n ≤ 2 ^ 64 + baseaddrSram

instance (p : BitVec mode.width) (n : ℕ) : Decidable (ClearOfSram p n) := by
  unfold ClearOfSram; infer_instance

theorem ClearOfSram.mono {p : BitVec mode.width} {m n : ℕ} (h : ClearOfSram p n) (hmn : m ≤ n) :
    ClearOfSram p m := by
  unfold ClearOfSram at *
  by_cases hp : p.toNat < 2 ^ 32
  · rw [if_pos hp] at *
    omega
  · rw [if_neg hp] at *
    omega

theorem mem_sram {a : BitVec mode.width} :
    a ∈ sram mode ↔ 0xFFFF0000 ≤ a.toNat ∧ a.toNat < 2 ^ 32 := Iff.rfl

theorem pSBI_mem_sram : pSBI mode ∈ sram mode := by
  rw [mem_sram, toNat_pSBI]; decide

theorem ClearOfSram.disjoint {p : BitVec mode.width} {n : ℕ} (h : ClearOfSram p n) :
    Disjoint (block p n) (sram mode) := by
  refine Set.disjoint_left.2 fun a ha hs => ?_
  rw [mem_block] at ha
  rw [mem_sram] at hs
  unfold ClearOfSram baseaddrSram at h
  rcases Nat.lt_or_ge a.toNat p.toNat with hlt | hle
  · rw [offset_of_lt hlt] at ha
    cases mode
    · have := p.isLt
      simp only [OpMode.width] at *
      split at h <;> omega
    · simp only [OpMode.width] at *
      split at h <;> omega
  · rw [offset_of_le hle] at ha
    split at h <;> omega

theorem ClearOfSram.of_disjoint {p : BitVec mode.width} {n : ℕ} (hn : 0 < n)
    (h : Disjoint (block p n) (sram mode)) : ClearOfSram p n := by
  have hbase : pSBI mode ∉ block p n := Set.disjoint_right.1 h pSBI_mem_sram
  have hp : p ∉ sram mode := Set.disjoint_left.1 h (self_mem_block p hn)
  rw [mem_block, Nat.not_lt] at hbase
  rw [mem_sram] at hp
  unfold ClearOfSram baseaddrSram
  rcases Nat.lt_or_ge (pSBI mode).toNat p.toNat with hlt | hle
  · rw [offset_of_lt hlt, toNat_pSBI, baseaddrSram] at hbase
    rw [toNat_pSBI, baseaddrSram] at hlt
    cases mode
    · have := p.isLt
      simp only [OpMode.width] at *
      omega
    · simp only [OpMode.width] at *
      split <;> omega
  · rw [offset_of_le hle, toNat_pSBI, baseaddrSram] at hbase
    rw [toNat_pSBI, baseaddrSram] at hle
    split <;> omega

theorem disjoint_sram_iff {p : BitVec mode.width} {n : ℕ} (hn : 0 < n) :
    Disjoint (block p n) (sram mode) ↔ ClearOfSram p n :=
  ⟨ClearOfSram.of_disjoint hn, ClearOfSram.disjoint⟩

/-! ## The stores of an accepted image -/

/-- The sectors the second `NX_SDMMC_ReadSectors` is asked for. -/
def payloadSectors (loadsize : BitVec 32) : BitVec 32 := (loadsize + 0x400 + 512 - 1) / 512

/-- The sectors of the payload, when the size does not wrap. -/
theorem toNat_payloadSectors {loadsize : BitVec 32} (h : loadsize.toNat + 0x400 < 2 ^ 32 - 511) :
    (payloadSectors loadsize).toNat = (loadsize.toNat + 0x400 + 511) / 512 := by
  have hsum : (loadsize + 0x400 + 512 - 1).toNat = loadsize.toNat + 0x400 + 511 := by
    rw [BitVec.toNat_sub, BitVec.toNat_add, BitVec.toNat_add]
    simp only [BitVec.toNat_ofNat, BitVec.ofNat_eq_ofNat]
    omega
  rw [payloadSectors, BitVec.toNat_udiv, hsum]
  rfl

theorem toNat_mptrs_of_lt {loadaddr : BitVec 64} (h : loadaddr.toNat < 2 ^ 32) :
    (mptrs mode loadaddr).toNat = loadaddr.toNat := by
  have hw : 2 ^ 32 ≤ 2 ^ mode.width := OpMode.two_pow_le
  rw [toNat_mptrs, Nat.mod_eq_of_lt (by omega)]

/-- What the SRAM check lets pass ends below the SRAM, if the load address is one of 32 bits. -/
theorem end_le_of_not_overlapsSram {loadaddr : BitVec 64} {loadsize : BitVec 32}
    (hlt : loadaddr.toNat < 2 ^ 32) (h : overlapsSram loadaddr loadsize = false) :
    loadaddr.toNat + (0x400 + loadsize.toNat) ≤ baseaddrSram := by
  have hsize := loadsize.isLt
  have hsum : (loadaddr + 0x400 + loadsize.setWidth 64).toNat =
      loadaddr.toNat + 0x400 + loadsize.toNat := by
    rw [BitVec.toNat_add, BitVec.toNat_add, BitVec.toNat_setWidth,
      show (0x400 : BitVec 64).toNat = 0x400 from rfl]
    omega
  have hlow : loadaddr < 0x100000000 := BitVec.lt_def.2 hlt
  rw [overlapsSram, Bool.and_eq_false_iff, decide_eq_false_iff_not, decide_eq_false_iff_not] at h
  have hend := h.resolve_right (not_not_intro hlow)
  rw [gt_iff_lt, BitVec.lt_def, hsum, show (0xFFFF0000 : BitVec 64).toNat = 0xFFFF0000 from rfl]
    at hend
  rw [baseaddrSram]
  omega

/-- The bytes of header written at the load address before the payload is read. -/
def headerLength (env : BootEnv mode) : ℕ := if env.secureOn then 0x300 else 0x200

/-- The bytes stored from the load address on. -/
def storedLength (env : BootEnv mode) (loadsize : BitVec 32) : ℕ :=
  max (headerLength env) (0x200 + 512 * (payloadSectors loadsize).toNat)

theorem headerLength_ge (env : BootEnv mode) : 0x200 ≤ headerLength env := by
  unfold headerLength; split <;> decide

theorem footprint_copyHeader (env : BootEnv mode) (mem : Mem mode.width) :
    (copyHeader env mem).footprint =
      block (mptrs mode (Tbbinfo.loadaddr mem env.pTBI)) (headerLength env) := by
  unfold copyHeader headerLength
  split
  · rw [Traced.footprint_copyWords, Traced.footprint_copyWords, Traced.footprint_nil,
      Set.empty_union]
    exact (block_add _ 0x200 0x100).symm
  · rw [Traced.footprint_copyWords, Traced.footprint_nil, Set.empty_union]

theorem block_pTBI_subset_sram (env : BootEnv mode) : block env.pTBI 512 ⊆ sram mode := by
  intro a ha
  obtain ⟨hlo, hhi⟩ := And.intro env.pTBI_ge env.pTBI_le
  simp only [baseaddrSram, sizeofNxBootheader, internalSramSize] at hlo hhi
  rw [mem_block] at ha
  rw [mem_sram]
  rcases Nat.lt_or_ge a.toNat env.pTBI.toNat with hlt | hle
  · rw [offset_of_lt hlt] at ha
    have hpow : 2 ^ 32 ≤ 2 ^ mode.width := OpMode.two_pow_le
    omega
  · rw [offset_of_le hle] at ha
    omega

theorem copyHeader_frame (env : BootEnv mode) (mem : Mem mode.width) {a : BitVec mode.width}
    (ha : a ∉ block (mptrs mode (Tbbinfo.loadaddr mem env.pTBI)) (headerLength env)) :
    (copyHeader env mem).mem a = mem a := by
  unfold copyHeader headerLength at *
  split at ha
  · rename_i hsec
    rw [show (0x300 : ℕ) = 0x200 + 0x100 from rfl, block_add, Set.mem_union, not_or] at ha
    rw [if_pos hsec, Traced.copyWords_frame _ ha.2, Traced.copyWords_frame _ ha.1]
  · rename_i hsec
    rw [if_neg hsec, Traced.copyWords_frame _ ha]

section Clear

variable {host : SdHost σ} {env : BootEnv mode} {s : BootState mode σ}

/-- The header copy stays outside the SRAM. -/
def HeaderClear (env : BootEnv mode) (mem : Mem mode.width) : Prop :=
  Disjoint (block (mptrs mode (Tbbinfo.loadaddr mem env.pTBI)) (headerLength env)) (sram mode)

/-- The header copy stays apart from the sector it copies. -/
def CopyApart (env : BootEnv mode) (mem : Mem mode.width) : Prop :=
  Disjoint (block (mptrs mode (Tbbinfo.loadaddr mem env.pTBI)) (headerLength env))
    (block env.pTBI 512)

theorem HeaderClear.apart {mem : Mem mode.width} (h : HeaderClear env mem) : CopyApart env mem :=
  Set.disjoint_of_subset_right (block_pTBI_subset_sram env) h

theorem HeaderClear.sram_eq {mem : Mem mode.width} (h : HeaderClear env mem)
    {a : BitVec mode.width} (ha : a ∈ sram mode) : (copyHeader env mem).mem a = mem a :=
  copyHeader_frame env mem (Set.disjoint_right.1 h ha)

/-- The copied sector is the one in `*pTBI`. -/
theorem CopyApart.copied {mem : Mem mode.width} (h : CopyApart env mem) :
    ∀ k < 0x200, (copyHeader env mem).mem
      (mptrs mode (Tbbinfo.loadaddr mem env.pTBI) + BitVec.ofNat _ k) =
        mem (env.pTBI + BitVec.ofNat _ k) := by
  intro k hk
  have hw : 0x300 ≤ 2 ^ mode.width := le_trans (by decide) OpMode.two_pow_le
  have hdis : Disjoint (block (mptrs mode (Tbbinfo.loadaddr mem env.pTBI)) 0x200)
      (block env.pTBI 0x200) :=
    Set.disjoint_of_subset_left (block_mono (headerLength_ge env)) h
  have hsector : ((Traced.copyWords ⟨mem, []⟩ env.pTBI
      (mptrs mode (Tbbinfo.loadaddr mem env.pTBI)) (512 / 4)).mem)
      (mptrs mode (Tbbinfo.loadaddr mem env.pTBI) + BitVec.ofNat _ k) =
        mem (env.pTBI + BitVec.ofNat _ k) := by
    rw [Traced.copyWords_mem _ (le_trans (by decide) hw) hdis,
      write_add _ _ (by rw [length_read]; exact hk) (by rw [length_read]; omega), getElem_read]
  unfold copyHeader
  split
  · rw [Traced.copyWords_frame _ ?_, hsector]
    rw [mem_block, Nat.not_lt]
    rw [offset_add_of_lt (by omega) (by rw [offset_add_ofNat _ (by omega)]; exact hk),
      offset_add_ofNat _ (by omega)]
    have : 4 * (sizeofNxBootheader / 4 / 4) = 0x100 := rfl
    omega
  · exact hsector

/-- The image's header after `loadsize += sizeof(struct nx_bootheader)`. -/
def patchedHeader (env : BootEnv mode) (mem : Mem mode.width) : Traced mode.width :=
  (copyHeader env mem).store
    (mptrs mode (Tbbinfo.loadaddr mem env.pTBI) + BitVec.ofNat _ 0x50)
    (leBytes (Tbbinfo.loadsize mem env.pTBI + 0x400))

/-- The read of the sectors after the header. -/
def readPayload (host : SdHost σ) (env : BootEnv mode) (s : BootState mode σ) :
    Bool × List Byte × σ :=
  host.readSectors (SecondBootInfo.deviceaddr s.mem (pSBI mode) / 512 + 1)
    (payloadSectors (Tbbinfo.loadsize s.mem env.pTBI)) s.sd

theorem pSBI_block_subset_sram {k n : ℕ} (h : k + n ≤ internalSramSize) :
    block (pSBI mode + BitVec.ofNat _ k) n ⊆ sram mode := by
  intro a ha
  have hin := block_sub (pSBI mode) h ha
  rw [mem_block] at hin
  rw [mem_sram]
  have hpow : 2 ^ 32 ≤ 2 ^ mode.width := OpMode.two_pow_le
  have ha := a.isLt
  rcases Nat.lt_or_ge a.toNat (pSBI mode).toNat with hlt | hle
  · rw [offset_of_lt hlt] at hin
    rw [toNat_pSBI] at *
    simp only [internalSramSize, baseaddrSram] at *
    omega
  · rw [offset_of_le hle] at hin
    rw [toNat_pSBI] at *
    simp only [internalSramSize, baseaddrSram] at *
    omega

theorem pTBI_field_subset_sram (env : BootEnv mode) {k n : ℕ} (h : k + n ≤ 512) :
    block (env.pTBI + BitVec.ofNat _ k) n ⊆ sram mode :=
  (block_sub env.pTBI h).trans (block_pTBI_subset_sram env)

/-- The header's own fields survive its copy, in `*pTBI` and at the load address. -/
theorem CopyApart.copied_loadaddr {mem : Mem mode.width} (h : CopyApart env mem) :
    Tbbinfo.loadaddr (copyHeader env mem).mem env.pTBI = Tbbinfo.loadaddr mem env.pTBI :=
  load64_congr fun _ ha =>
    copyHeader_frame env mem (Set.disjoint_right.1 h (block_sub env.pTBI (by decide) ha))

theorem CopyApart.copied_loadsize {mem : Mem mode.width} (h : CopyApart env mem) :
    Tbbinfo.loadsize (copyHeader env mem).mem (mptrs mode (Tbbinfo.loadaddr mem env.pTBI)) =
      Tbbinfo.loadsize mem env.pTBI :=
  load32_copy fun k _ _ => h.copied k (by omega)

theorem patch_disjoint_sram {mem : Mem mode.width} (h : HeaderClear env mem) :
    Disjoint (block (mptrs mode (Tbbinfo.loadaddr mem env.pTBI) + BitVec.ofNat _ 0x50)
      (leBytes (Tbbinfo.loadsize mem env.pTBI + 0x400)).length) (sram mode) := by
  refine Set.disjoint_of_subset_left (block_sub _ ?_) h
  rw [length_leBytes]
  exact le_trans (by decide) (headerLength_ge env)

theorem HeaderClear.patched_sram_eq {mem : Mem mode.width} (h : HeaderClear env mem)
    {a : BitVec mode.width} (ha : a ∈ sram mode) : (patchedHeader env mem).mem a = mem a := by
  rw [patchedHeader, Traced.store_mem,
    write_of_not_mem _ (Set.disjoint_right.1 (patch_disjoint_sram h) ha), h.sram_eq ha]

/-- The fields of the patched header other than `loadsize`. -/
theorem CopyApart.patched_copied {mem : Mem mode.width} (h : CopyApart env mem) {k : ℕ}
    (hk : k < 0x200) (hp : k < 0x50 ∨ 0x54 ≤ k) :
    (patchedHeader env mem).mem (mptrs mode (Tbbinfo.loadaddr mem env.pTBI) + BitVec.ofNat _ k) =
      mem (env.pTBI + BitVec.ofNat _ k) := by
  have hw : 2 ^ 32 ≤ 2 ^ mode.width := OpMode.two_pow_le
  rw [patchedHeader, Traced.store_mem, write_of_not_mem, h.copied k hk]
  rw [mem_block, length_leBytes, Nat.not_lt]
  have hoff := offset_add_ofNat (mptrs mode (Tbbinfo.loadaddr mem env.pTBI))
    (show k < 2 ^ mode.width by omega)
  rcases hp with hp | hp
  · rw [offset_add_of_lt (by omega) (by omega), hoff]
    omega
  · rw [offset_add_of_le (by omega), hoff]
    omega

theorem patched_loadsize {mem : Mem mode.width} :
    Tbbinfo.loadsize (patchedHeader env mem).mem (mptrs mode (Tbbinfo.loadaddr mem env.pTBI)) =
      Tbbinfo.loadsize mem env.pTBI + 0x400 := by
  rw [patchedHeader, Traced.store_mem, Tbbinfo.loadsize,
    load32_write_leBytes _ _ _ (le_trans (by decide) OpMode.two_pow_le)]

theorem CopyApart.patched_loadaddr {mem : Mem mode.width} (h : CopyApart env mem) :
    Tbbinfo.loadaddr (patchedHeader env mem).mem (mptrs mode (Tbbinfo.loadaddr mem env.pTBI)) =
      Tbbinfo.loadaddr mem env.pTBI :=
  load64_copy fun _ _ _ => h.patched_copied (by omega) (by omega)

theorem HeaderClear.patched_deviceaddr {mem : Mem mode.width} (h : HeaderClear env mem) :
    SecondBootInfo.deviceaddr (patchedHeader env mem).mem (pSBI mode) =
      SecondBootInfo.deviceaddr mem (pSBI mode) :=
  load32_congr fun _ ha => h.patched_sram_eq (pSBI_block_subset_sram (by decide) ha)

/-- A header that stays clear of the SRAM is read back from its copy as it was in `*pTBI`, and
the payload lands right behind its sector. -/
theorem loadImage_loads (h : HeaderClear env s.mem) :
    (loadImage host env s).loads = (patchedHeader env s.mem).store
      (mptrs mode (Tbbinfo.loadaddr s.mem env.pTBI) + BitVec.ofNat _ 0x200)
      (readPayload host env s).2.1 := by
  simp only [loadImage, h.apart.copied_loadaddr, h.apart.copied_loadsize]
  rw [← patchedHeader, patched_loadsize, h.apart.patched_loadaddr, h.patched_deviceaddr, mptrs_add,
    show mptrs mode 512 = BitVec.ofNat _ 0x200 from mptrs_ofNat 0x200]
  rfl

theorem footprint_patchedHeader (env : BootEnv mode) (mem : Mem mode.width) :
    (patchedHeader env mem).footprint =
      block (mptrs mode (Tbbinfo.loadaddr mem env.pTBI)) (headerLength env) := by
  rw [patchedHeader, Traced.footprint_store, footprint_copyHeader, length_leBytes]
  exact Set.union_eq_left.2 (block_sub _ (le_trans (by decide) (headerLength_ge env)))

/-- The stores of an image whose header stays clear of the SRAM are one block. -/
theorem footprint_loadImage (h : HeaderClear env s.mem) :
    (loadImage host env s).loads.footprint =
      block (mptrs mode (Tbbinfo.loadaddr s.mem env.pTBI))
        (max (headerLength env) (0x200 + (readPayload host env s).2.1.length)) := by
  rw [loadImage_loads h, Traced.footprint_store, footprint_patchedHeader]
  set n := (readPayload host env s).2.1.length
  set p := mptrs mode (Tbbinfo.loadaddr s.mem env.pTBI)
  have hsector : block p (0x200 + n) = block p 0x200 ∪ block (p + BitVec.ofNat _ 0x200) n :=
    block_add p 0x200 n
  have hge := headerLength_ge env
  rcases Nat.le_total (headerLength env) (0x200 + n) with hle | hle
  · rw [max_eq_right hle]
    refine Set.Subset.antisymm (Set.union_subset (block_mono hle) ?_) ?_
    · exact hsector ▸ Set.subset_union_right
    · exact hsector ▸ Set.union_subset_union_left _ (block_mono hge)
  · rw [max_eq_left hle]
    refine Set.union_eq_left.2 (Set.Subset.trans ?_ (block_mono hle))
    exact hsector ▸ Set.subset_union_right

theorem length_readPayload (hwhole : host.StoresWhole) :
    (readPayload host env s).2.1.length =
      512 * (payloadSectors (Tbbinfo.loadsize s.mem env.pTBI)).toNat := by
  rw [readPayload, hwhole, Nat.mul_comm]

end Clear

/-- Whatever the loader reads back, its stores include the header copy. -/
theorem copyHeader_subset_footprint (host : SdHost σ) (env : BootEnv mode)
    (s : BootState mode σ) :
    (copyHeader env s.mem).footprint ⊆ (loadImage host env s).loads.footprint := by
  simp only [loadImage, Traced.footprint_store]
  exact Set.subset_union_left.trans Set.subset_union_left

/-- **Footprint.** The stores of an accepted image stay outside the SRAM exactly when the block
they cover does. -/
theorem loadImage_clear_iff {host : SdHost σ} (hwhole : host.StoresWhole) (env : BootEnv mode)
    (s : BootState mode σ) :
    Disjoint (loadImage host env s).loads.footprint (sram mode) ↔
      ClearOfSram (mptrs mode (Tbbinfo.loadaddr s.mem env.pTBI))
        (storedLength env (Tbbinfo.loadsize s.mem env.pTBI)) := by
  have hpos : 0 < headerLength env := lt_of_lt_of_le (by decide) (headerLength_ge env)
  by_cases hclear : HeaderClear env s.mem
  · rw [footprint_loadImage hclear, length_readPayload hwhole]
    exact disjoint_sram_iff (lt_of_lt_of_le hpos (le_max_left _ _))
  · refine iff_of_false (fun hdis => hclear ?_) fun h => hclear ?_
    · have hsub := copyHeader_subset_footprint host env s
      rw [footprint_copyHeader] at hsub
      exact Set.disjoint_of_subset_left hsub hdis
    · exact (h.mono (le_max_left _ _)).disjoint

/-- `SDMMCBOOT` keeps its stores out of the SRAM iff it stops before the copy, or the block the
copy and the second read cover, from the truncated load address on, is clear of the SRAM. -/
theorem sdmmcBoot_stores_clear_iff {host : SdHost σ} (hwhole : host.StoresWhole)
    (env : BootEnv mode) (s : BootState mode σ) :
    Disjoint (sdmmcBoot host env s).loads.footprint (sram mode) ↔
      ∀ s', readBootHeader host env s = (true, s') → refused env s'.mem = false →
        ClearOfSram (mptrs mode (Tbbinfo.loadaddr s'.mem env.pTBI))
          (storedLength env (Tbbinfo.loadsize s'.mem env.pTBI)) := by
  unfold sdmmcBoot
  rcases readBootHeader host env s with ⟨_ | _, s'⟩
  · simp
  · cases href : refused env s'.mem
    · simp [loadImage_clear_iff hwhole, href]
    · simp [href]

/-! ## An image that ends at the SRAM -/

/-- A signed header with `loadaddr = 0xFFFEFC00` and `loadsize = 0`. -/
def overhangByte (k : ℕ) : Byte :=
  match k with
  | 0x59 => 0xFC | 0x5A => 0xFE | 0x5B => 0xFF
  | 0x1FC => 0x4E | 0x1FD => 0x53 | 0x1FE => 0x49 | 0x1FF => 0x48
  | _ => 0

def overhangSectors (n : BitVec 32) : List Byte := (List.range (n.toNat * 512)).map overhangByte

def overhangCard : SdHost Unit where
  sdmmcOpen _ := (true, ())
  fifoEmpty _ := (true, ())
  fifoReset _ := ()
  readSectors _ n _ := (true, overhangSectors n, ())

/-- `TBI` in the middle of the SRAM, on aarch64 and without decryption. -/
def plainEnv : BootEnv .aarch64 where
  pTBI := 0xFFFFE000
  pTBI_ge := by decide
  pTBI_le := by decide
  secureOn := false
  sysrstconfig := 0
  decrypt _ _ _ := id

/-- All memory zero, `pSBI->DEVICEADDR` too. -/
def zeroState : BootState .aarch64 Unit := { mem := fun _ => 0, sd := () }

/-- Memory once the header sector is in `*pTBI`. -/
def overhangMem : Mem OpMode.aarch64.width :=
  write zeroState.mem plainEnv.pTBI (overhangSectors 1)

theorem overhang_readBootHeader :
    readBootHeader overhangCard plainEnv zeroState = (true, ⟨overhangMem, ()⟩) := by
  have hsig : SecondBootInfo.signature overhangMem plainEnv.pTBI = headerId := by decide +kernel
  exact readBootHeader_ok rfl rfl rfl (by decide) hsig

theorem overhang_loadaddr : Tbbinfo.loadaddr overhangMem plainEnv.pTBI = 0xFFFEFC00 := by
  decide +kernel

theorem overhang_loadsize : Tbbinfo.loadsize overhangMem plainEnv.pTBI = 0 := by decide +kernel

theorem overhang_not_refused : refused plainEnv overhangMem = false := by
  unfold refused
  rw [overhang_loadaddr, overhang_loadsize]
  decide

theorem overhangCard_storesWhole : overhangCard.StoresWhole :=
  fun _ n _ => by simp [overhangCard, overhangSectors]

/-- The image `[0xFFFEFC00, 0xFFFF0000)` is not refused, and the last sector stored for it reaches
`0xFFFF0200`, where BL1's code begins. -/
theorem sdmmcBoot_overhang_reaches_sram :
    overhangCard.StoresWhole ∧
      readBootHeader overhangCard plainEnv zeroState = (true, ⟨overhangMem, ()⟩) ∧
      refused plainEnv overhangMem = false ∧
      ¬ Disjoint (sdmmcBoot overhangCard plainEnv zeroState).loads.footprint
        (sram .aarch64) := by
  refine ⟨overhangCard_storesWhole, overhang_readBootHeader, overhang_not_refused, ?_⟩
  rw [sdmmcBoot, overhang_readBootHeader]
  simp only [overhang_not_refused, Bool.false_eq_true, if_false]
  rw [loadImage_clear_iff overhangCard_storesWhole, overhang_loadaddr, overhang_loadsize]
  decide

theorem sdmmcBoot_overhang_clear_iff :
    Disjoint (sdmmcBoot overhangCard plainEnv zeroState).loads.footprint (sram .aarch64) ↔
      ClearOfSram (mptrs .aarch64 0xFFFEFC00) (storedLength plainEnv 0) := by
  have hiff := sdmmcBoot_stores_clear_iff overhangCard_storesWhole plainEnv zeroState
  simp only [overhang_readBootHeader, Prod.mk.injEq, true_and, forall_eq', overhang_not_refused,
    forall_const, overhang_loadaddr, overhang_loadsize] at hiff
  exact hiff

end Gec6818Bl1

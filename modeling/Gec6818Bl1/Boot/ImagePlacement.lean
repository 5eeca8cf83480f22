import Gec6818Bl1.Boot.SramGuard

/-!
# Where the image ends up

An image on a card is one run of bytes: its header of `0x400` bytes and its payload. `SDMMCBOOT`
assembles it from two reads. The first sector goes to `*pTBI`, is copied from there word by word
and patched at its new place; the sectors from `0x200` on are read behind it.

**Placement.** If `SDMMCBOOT` returns `CTRUE`, memory holds the image from its load address on,
with `loadsize` raised by the header's size, `LAUNCHADDR` is its `startaddr`, and nothing else
changed but `*pTBI` and the rest of the last sector.

The header is clear of the SRAM here, because an image that does not wrap and is not refused ends
below it. So the reading of `loadImage` in `SramGuard` applies, and what is left is to follow one
byte of the image through the stores.
-/

namespace Gec6818Bl1

open ByteMem

variable {mode : OpMode} {σ : Type*}

/-! ## The card -/

/-- The card's bytes from `dev` on, as a memory to read header fields from. -/
def deviceHeader (device : ℕ → Byte) (dev : ℕ) : Mem 64 := fun k => device (dev + k.toNat)

theorem deviceHeader_apply (device : ℕ → Byte) (dev : ℕ) {k : ℕ} (hk : k < 2 ^ 64) :
    deviceHeader device dev (0 + BitVec.ofNat 64 k) = device (dev + k) := by
  have hzero : (0 : BitVec 64) + BitVec.ofNat 64 k = BitVec.ofNat 64 k := BitVec.zero_add _
  rw [hzero, deviceHeader, BitVec.toNat_ofNat, Nat.mod_eq_of_lt hk]

/-- A sector stored in memory reads like the card, field by field. -/
theorem sectorBytes_stored (m : Mem mode.width) (p : BitVec mode.width) (device : ℕ → Byte)
    {dev k : ℕ} (hdev : 512 ∣ dev) (hk : k < 512) :
    write m p (sectorBytes device (dev / 512) 1) (p + BitVec.ofNat _ k) =
      deviceHeader device dev (0 + BitVec.ofNat 64 k) := by
  have hw : 2 ^ 32 ≤ 2 ^ mode.width := OpMode.two_pow_le
  have hlen : (sectorBytes device (dev / 512) 1).length = 512 := by rw [length_sectorBytes]
  rw [write_add _ _ (by rw [hlen]; exact hk) (by omega), deviceHeader_apply _ _ (by omega)]
  simp only [sectorBytes, List.getElem_map, List.getElem_range, Nat.div_mul_cancel hdev]

/-- `DEVICEADDR / BLOCK_LENGTH` and the sector after it, as byte offsets on the card. -/
theorem toNat_sector (dev : BitVec 32) : (dev / 512).toNat = dev.toNat / 512 := by
  simp [BitVec.toNat_udiv]

theorem toNat_sector_succ (dev : BitVec 32) : (dev / 512 + 1).toNat = dev.toNat / 512 + 1 := by
  have := dev.isLt
  rw [BitVec.toNat_add, toNat_sector, show (1 : BitVec 32).toNat = 1 from rfl]
  omega

section Placement

variable {host : SdHost σ} {device : ℕ → Byte} {env : BootEnv mode}

/-! ## The header in `*pTBI` -/

theorem readBootHeader_mem {s s' : BootState mode σ} (hreads : host.Reads device)
    (hdec : env.decrypts = false) (h : readBootHeader host env s = (true, s')) :
    s'.mem = write s.mem env.pTBI (sectorBytes device
      ((SecondBootInfo.deviceaddr s.mem (pSBI mode)).toNat / 512) 1) := by
  obtain ⟨bytes, sd₁, hread, hmem, -⟩ := readBootHeader_true h
  rw [hmem, hdec, if_neg Bool.false_ne_true, hreads _ _ _ _ _ hread, toNat_sector]
  rfl

/-- The header in `*pTBI` reads like the one on the card, and what lies outside is as before. -/
structure HeaderRead (device : ℕ → Byte) (dev : ℕ) (env : BootEnv mode)
    (mem mem' : Mem mode.width) : Prop where
  loadaddr : Tbbinfo.loadaddr mem' env.pTBI = Tbbinfo.loadaddr (deviceHeader device dev) 0
  startaddr : Tbbinfo.startaddr mem' env.pTBI = Tbbinfo.startaddr (deviceHeader device dev) 0
  loadsize : Tbbinfo.loadsize mem' env.pTBI = Tbbinfo.loadsize (deviceHeader device dev) 0
  sector : ∀ k < 512, mem' (env.pTBI + BitVec.ofNat _ k) = device (dev + k)
  frame : ∀ a ∉ block env.pTBI 512, mem' a = mem a

theorem headerRead_write (mem : Mem mode.width) {dev : ℕ} (hdev : 512 ∣ dev) :
    HeaderRead device dev env mem
      (write mem env.pTBI (sectorBytes device (dev / 512) 1)) := by
  have hfield : ∀ k < 512, write mem env.pTBI (sectorBytes device (dev / 512) 1)
      (env.pTBI + BitVec.ofNat _ k) = deviceHeader device dev (0 + BitVec.ofNat 64 k) :=
    fun k hk => sectorBytes_stored mem env.pTBI device hdev hk
  constructor
  · exact load64_copy fun k _ hk => hfield k (by omega)
  · exact load64_copy fun k _ hk => hfield k (by omega)
  · exact load32_copy fun k _ hk => hfield k (by omega)
  · intro k hk
    rw [hfield k hk, deviceHeader_apply _ _ (by omega)]
  · intro a ha
    refine write_of_not_mem _ ?_
    rwa [length_sectorBytes, Nat.one_mul]

/-- `pSBI->DEVICEADDR` lies below `*pTBI`. -/
theorem HeaderRead.deviceaddr {dev : ℕ} {mem mem' : Mem mode.width}
    (h : HeaderRead device dev env mem mem') :
    SecondBootInfo.deviceaddr mem' (pSBI mode) = SecondBootInfo.deviceaddr mem (pSBI mode) := by
  refine load32_congr fun a ha => h.frame a fun hb => ?_
  have hlow : offset (pSBI mode) a < 0x44 := block_sub (pSBI mode) (le_refl _) ha
  have hge : baseaddrSram ≤ a.toNat := (block_pTBI_subset_sram env hb).1
  rw [offset_of_le (by rwa [toNat_pSBI]), toNat_pSBI] at hlow
  have hTBI := env.pTBI_ge
  have hTBI' := env.pTBI_le
  have hw : 2 ^ 32 ≤ 2 ^ mode.width := OpMode.two_pow_le
  simp only [baseaddrSram, sizeofNxBootheader, internalSramSize] at hlow hge hTBI hTBI'
  rw [mem_block, offset_of_lt (by omega)] at hb
  omega

/-! ## The image behind its header -/

theorem loadImage_mem {s : BootState mode σ} (hdec : env.decrypts = false)
    (h : HeaderClear env s.mem) :
    (loadImage host env s).mem = write (loadImage host env s).loads.mem
      (env.pTBI + BitVec.ofNat _ 0x4C)
      (leBytes ((Tbbinfo.startaddr (loadImage host env s).loads.mem
        (mptrs mode (Tbbinfo.loadaddr s.mem env.pTBI))).setWidth 32)) := by
  simp only [loadImage, hdec, h.apart.copied_loadaddr, Bool.false_eq_true, if_false]

theorem loadImage_result {s : BootState mode σ} (h : HeaderClear env s.mem) :
    (loadImage host env s).result = (readPayload host env s).1 := by
  simp only [loadImage, h.apart.copied_loadaddr, h.apart.copied_loadsize]
  rw [← patchedHeader, patched_loadsize, h.patched_deviceaddr]
  rfl

/-- The payload of a successful load: the sectors after the header's, cut to whole sectors. -/
theorem readPayload_bytes {s : BootState mode σ} (hreads : host.Reads device)
    (hsize : (Tbbinfo.loadsize s.mem env.pTBI).toNat + 0x400 < 2 ^ 32 - 511)
    (hok : (readPayload host env s).1 = true) :
    (readPayload host env s).2.1 =
      sectorBytes device ((SecondBootInfo.deviceaddr s.mem (pSBI mode)).toNat / 512 + 1)
        (((Tbbinfo.loadsize s.mem env.pTBI).toNat + 0x400 + 511) / 512) := by
  rw [← toNat_payloadSectors hsize, ← toNat_sector_succ]
  exact hreads _ _ s.sd _ (readPayload host env s).2.2 (Prod.ext hok rfl)

/-- One byte of the image, after the stores: of the patched header, or of the sectors read. -/
theorem HeaderClear.loads_header {s : BootState mode σ} (h : HeaderClear env s.mem)
    (hlen : 0x200 + (readPayload host env s).2.1.length ≤ 2 ^ mode.width) {k : ℕ}
    (hk : k < 0x200) :
    (loadImage host env s).loads.mem
        (mptrs mode (Tbbinfo.loadaddr s.mem env.pTBI) + BitVec.ofNat _ k) =
      (patchedHeader env s.mem).mem
        (mptrs mode (Tbbinfo.loadaddr s.mem env.pTBI) + BitVec.ofNat _ k) := by
  have hw : 2 ^ 32 ≤ 2 ^ mode.width := OpMode.two_pow_le
  have hoff := offset_add_ofNat (mptrs mode (Tbbinfo.loadaddr s.mem env.pTBI))
    (show k < 2 ^ mode.width by omega)
  rw [loadImage_loads h, Traced.store_mem, write_of_not_mem]
  rw [mem_block, offset_add_of_lt (by omega) (by omega)]
  omega

theorem HeaderClear.loads_payload {s : BootState mode σ} (h : HeaderClear env s.mem)
    (hlen : 0x200 + (readPayload host env s).2.1.length ≤ 2 ^ mode.width) {k : ℕ}
    (hk : k < (readPayload host env s).2.1.length) :
    (loadImage host env s).loads.mem
        (mptrs mode (Tbbinfo.loadaddr s.mem env.pTBI) + BitVec.ofNat _ (0x200 + k)) =
      (readPayload host env s).2.1[k] := by
  rw [loadImage_loads h, Traced.store_mem, ← ofNat_add, write_add _ _ hk (by omega)]

theorem patched_patch {mem : Mem mode.width} {j : ℕ} (hj : j < 4) :
    (patchedHeader env mem).mem
        (mptrs mode (Tbbinfo.loadaddr mem env.pTBI) + BitVec.ofNat _ (0x50 + j)) =
      (leBytes (Tbbinfo.loadsize mem env.pTBI + 0x400)).getD j 0 := by
  have hw : 2 ^ 32 ≤ 2 ^ mode.width := OpMode.two_pow_le
  have hlen : j < (leBytes (Tbbinfo.loadsize mem env.pTBI + 0x400)).length := by
    rwa [length_leBytes]
  rw [patchedHeader, Traced.store_mem, ← ofNat_add, write_add _ _ hlen
    (by rw [length_leBytes]; omega), ← List.getElem_eq_getD 0]

/-- One byte of the image, where it was loaded: the four bytes of the patch, or the card's. -/
theorem HeaderRead.loads_byte {s : BootState mode σ} {mem : Mem mode.width} {dev n : ℕ}
    (hheader : HeaderRead device dev env mem s.mem) (hclear : HeaderClear env s.mem)
    (hdev : 512 ∣ dev)
    (hbytes : (readPayload host env s).2.1 = sectorBytes device (dev / 512 + 1) n)
    (hroom : 0x200 + (readPayload host env s).2.1.length ≤ 2 ^ mode.width) {k : ℕ}
    (hk : k < 0x200 + (readPayload host env s).2.1.length) :
    (loadImage host env s).loads.mem
        (mptrs mode (Tbbinfo.loadaddr s.mem env.pTBI) + BitVec.ofNat _ k) =
      if 0x50 ≤ k ∧ k < 0x54 then
        (leBytes (Tbbinfo.loadsize s.mem env.pTBI + 0x400)).getD (k - 0x50) 0
      else device (dev + k) := by
  rcases Nat.lt_or_ge k 0x200 with hlt | hge
  · rw [hclear.loads_header hroom hlt]
    by_cases hp : 0x50 ≤ k ∧ k < 0x54
    · obtain ⟨j, rfl⟩ := Nat.exists_eq_add_of_le hp.1
      rw [if_pos hp, patched_patch (show j < 4 by omega), Nat.add_sub_cancel_left]
    · rw [if_neg hp, hclear.apart.patched_copied hlt (by omega), hheader.sector k hlt]
  · obtain ⟨j, rfl⟩ := Nat.exists_eq_add_of_le hge
    have hj : j < (readPayload host env s).2.1.length := by omega
    rw [hclear.loads_payload hroom hj, if_neg (by omega)]
    simp only [hbytes, sectorBytes, List.getElem_map, List.getElem_range]
    congr 1
    omega

/-- Everything the stores of an accepted image leave alone. -/
theorem loads_frame {s : BootState mode σ} (h : HeaderClear env s.mem) {a : BitVec mode.width}
    (ha : a ∉ (loadImage host env s).loads.footprint) :
    (loadImage host env s).loads.mem a = s.mem a := by
  rw [loadImage_loads h] at ha ⊢
  simp only [patchedHeader, Traced.footprint_store, footprint_copyHeader, Set.mem_union,
    not_or] at ha
  obtain ⟨⟨hheader, hpatch⟩, hpayload⟩ := ha
  rw [Traced.store_mem, write_of_not_mem _ hpayload, patchedHeader, Traced.store_mem,
    write_of_not_mem _ hpatch, copyHeader_frame env s.mem hheader]

/-- What the header on the card asks for, as numbers. -/
structure ImageFits (device : ℕ → Byte) (dev : ℕ) : Prop where
  loadaddr_lt : (Tbbinfo.loadaddr (deviceHeader device dev) 0).toNat < 2 ^ 32
  startaddr_lt : (Tbbinfo.startaddr (deviceHeader device dev) 0).toNat < 2 ^ 32
  loadsize_lt : (Tbbinfo.loadsize (deviceHeader device dev) 0).toNat + 0x400 < 2 ^ 32 - 511

/-- An image that fits and is not refused ends below the SRAM. -/
theorem ImageFits.below_sram {dev : ℕ} (hfit : ImageFits device dev)
    (h : overlapsSram (Tbbinfo.loadaddr (deviceHeader device dev) 0)
      (Tbbinfo.loadsize (deviceHeader device dev) 0) = false) :
    ClearOfSram (mptrs mode (Tbbinfo.loadaddr (deviceHeader device dev) 0))
      (0x400 + (Tbbinfo.loadsize (deviceHeader device dev) 0).toNat) := by
  rw [ClearOfSram, toNat_mptrs_of_lt hfit.loadaddr_lt, if_pos hfit.loadaddr_lt]
  exact end_le_of_not_overlapsSram hfit.loadaddr_lt h

/-- The placement of an image whose header was accepted, byte by byte. -/
theorem loadImage_places {s₀ s : BootState mode σ} {dev : ℕ} (hreads : host.Reads device)
    (hsec : env.secureOn = false) (hdec : env.decrypts = false) (hdev : 512 ∣ dev)
    (haddr : (SecondBootInfo.deviceaddr s₀.mem (pSBI mode)).toNat = dev)
    (hheader : HeaderRead device dev env s₀.mem s.mem) (hfit : ImageFits device dev)
    (hnot : refused env s.mem = false) (hok : (loadImage host env s).result = true) :
    let loadaddr := mptrs mode (Tbbinfo.loadaddr (deviceHeader device dev) 0)
    let loadsize := Tbbinfo.loadsize (deviceHeader device dev) 0
    (∀ k < 0x400 + loadsize.toNat, (loadImage host env s).mem (loadaddr + BitVec.ofNat _ k) =
      if 0x50 ≤ k ∧ k < 0x54 then (leBytes (loadsize + 0x400)).getD (k - 0x50) 0
      else device (dev + k)) ∧
    (SecondBootInfo.launchaddr (loadImage host env s).mem env.pTBI).toNat =
      (Tbbinfo.startaddr (deviceHeader device dev) 0).toNat ∧
    ∀ a, a ∉ block env.pTBI 512 →
      a ∉ block loadaddr (0x200 + 512 * ((loadsize.toNat + 0x400 + 511) / 512)) →
      (loadImage host env s).mem a = s₀.mem a := by
  intro la ls
  rw [refused, hheader.loadaddr, hheader.loadsize] at hnot
  have hbelow : ClearOfSram la (0x400 + ls.toNat) := hfit.below_sram hnot
  have hla : mptrs mode (Tbbinfo.loadaddr s.mem env.pTBI) = la := by rw [hheader.loadaddr]
  have hhl : headerLength env = 0x200 := by rw [headerLength, hsec]; rfl
  have hclear : HeaderClear env s.mem := by
    rw [HeaderClear, hla, hhl]
    exact (hbelow.mono (by omega)).disjoint
  rw [loadImage_result hclear] at hok
  have hls : (Tbbinfo.loadsize s.mem env.pTBI).toNat + 0x400 < 2 ^ 32 - 511 := by
    rw [hheader.loadsize]; exact hfit.loadsize_lt
  have hbytes := readPayload_bytes hreads hls hok
  rw [hheader.deviceaddr, haddr, hheader.loadsize] at hbytes
  have hw : 2 ^ 32 ≤ 2 ^ mode.width := OpMode.two_pow_le
  have hlen : (readPayload host env s).2.1.length = (ls.toNat + 0x400 + 511) / 512 * 512 := by
    rw [hbytes, length_sectorBytes]
  have hroom : 0x200 + (readPayload host env s).2.1.length ≤ 2 ^ mode.width := by
    have hsize : ls.toNat + 0x400 < 2 ^ 32 - 511 := hfit.loadsize_lt
    omega
  rw [loadImage_mem hdec hclear, hla]
  refine ⟨fun k hk => ?_, ?_, fun a haTBI haImage => ?_⟩
  · have hout : la + BitVec.ofNat _ k ∉ sram mode :=
      Set.disjoint_left.1 hbelow.disjoint (add_mem_block la hk)
    rw [write_of_not_mem _ fun h => hout
      (pTBI_field_subset_sram env (show 0x4C + 4 ≤ 512 by decide) h)]
    rw [← hla, hheader.loads_byte hclear hdev hbytes hroom (by omega), hheader.loadsize]
  · have hstart : Tbbinfo.startaddr (loadImage host env s).loads.mem la =
        Tbbinfo.startaddr (deviceHeader device dev) 0 := by
      rw [← hheader.startaddr, ← hla]
      refine load64_copy fun k _ hk => ?_
      rw [hclear.loads_header hroom (by omega), hclear.apart.patched_copied (by omega) (by omega)]
    have hlaunch : SecondBootInfo.launchaddr (write (loadImage host env s).loads.mem
        (env.pTBI + BitVec.ofNat _ 0x4C) (leBytes ((Tbbinfo.startaddr
          (loadImage host env s).loads.mem la).setWidth 32))) env.pTBI =
        (Tbbinfo.startaddr (loadImage host env s).loads.mem la).setWidth 32 :=
      load32_write_leBytes _ _ _ (le_trans (by decide) hw)
    rw [hlaunch, hstart, BitVec.toNat_setWidth, Nat.mod_eq_of_lt hfit.startaddr_lt]
  · rw [write_of_not_mem _ fun h => haTBI
      (block_sub env.pTBI (show 0x4C + 4 ≤ 512 by decide) h), loads_frame hclear,
      hheader.frame a haTBI]
    rwa [footprint_loadImage hclear, hla, hhl, hlen, max_eq_right (by omega), Nat.mul_comm]

/-- **Placement.** After a load that returned `CTRUE`, memory holds the image from its load address
on, with `loadsize` patched. A header without signature and one the SRAM check refuses return
`CFALSE`. -/
theorem sdmmcBoot_places_image {s : BootState mode σ} {dev : ℕ} (hreads : host.Reads device)
    (hsec : env.secureOn = false) (hdec : env.decrypts = false)
    (haddr : (SecondBootInfo.deviceaddr s.mem (pSBI mode)).toNat = dev) (hdev : 512 ∣ dev)
    (hfit : ImageFits device dev) (hok : (sdmmcBoot host env s).result = true) :
    let loadaddr := mptrs mode (Tbbinfo.loadaddr (deviceHeader device dev) 0)
    let loadsize := Tbbinfo.loadsize (deviceHeader device dev) 0
    (∀ k < 0x400 + loadsize.toNat, (sdmmcBoot host env s).mem (loadaddr + BitVec.ofNat _ k) =
      if 0x50 ≤ k ∧ k < 0x54 then (leBytes (loadsize + 0x400)).getD (k - 0x50) 0
      else device (dev + k)) ∧
    (SecondBootInfo.launchaddr (sdmmcBoot host env s).mem env.pTBI).toNat =
      (Tbbinfo.startaddr (deviceHeader device dev) 0).toNat ∧
    ∀ a, a ∉ block env.pTBI 512 →
      a ∉ block loadaddr (0x200 + 512 * ((loadsize.toNat + 0x400 + 511) / 512)) →
      (sdmmcBoot host env s).mem a = s.mem a := by
  rcases hread : readBootHeader host env s with ⟨_ | _, s₁⟩
  · simp [sdmmcBoot, hread] at hok
  · rcases hnot : refused env s₁.mem
    · have hload : sdmmcBoot host env s = loadImage host env s₁ := by
        simp [sdmmcBoot, hread, hnot]
      rw [hload] at hok ⊢
      have hmem := readBootHeader_mem hreads hdec hread
      rw [haddr] at hmem
      have hheader : HeaderRead device dev env s.mem s₁.mem := hmem ▸ headerRead_write s.mem hdev
      exact loadImage_places hreads hsec hdec hdev haddr hheader hfit hnot hok
    · simp [sdmmcBoot, hread, hnot] at hok

end Placement

/-! ## A card with a small image -/

/-- A signed image at the start of the card: `loadaddr = startaddr = 0x43C00000`,
`loadsize = 0x10`. -/
def smallImage (k : ℕ) : Byte :=
  match k with
  | 0x50 => 0x10
  | 0x5A => 0xC0 | 0x5B => 0x43 | 0x62 => 0xC0 | 0x63 => 0x43
  | 0x1FC => 0x4E | 0x1FD => 0x53 | 0x1FE => 0x49 | 0x1FF => 0x48
  | _ => 0

def smallImageCard : SdHost Unit where
  sdmmcOpen _ := (true, ())
  fifoEmpty _ := (true, ())
  fifoReset _ := ()
  readSectors sector n _ := (true, sectorBytes smallImage sector.toNat n.toNat, ())

theorem smallImageCard_reads : smallImageCard.Reads smallImage := by
  rintro sector n sd bytes sd' h
  exact (congrArg (fun r => r.2.1) h).symm

def smallImageMem : Mem OpMode.aarch64.width :=
  write zeroState.mem plainEnv.pTBI (sectorBytes smallImage 0 1)

theorem smallImage_fields :
    SecondBootInfo.signature smallImageMem plainEnv.pTBI = headerId ∧
      Tbbinfo.loadaddr smallImageMem plainEnv.pTBI = 0x43C00000 ∧
      Tbbinfo.loadsize smallImageMem plainEnv.pTBI = 0x10 := by
  refine ⟨?_, ?_, ?_⟩ <;> decide +kernel

theorem smallImage_boots : (sdmmcBoot smallImageCard plainEnv zeroState).result = true := by
  obtain ⟨hsig, hloadaddr, hloadsize⟩ := smallImage_fields
  have hread : readBootHeader smallImageCard plainEnv zeroState = (true, ⟨smallImageMem, ()⟩) :=
    readBootHeader_ok rfl rfl rfl (by decide) hsig
  have hnot : refused plainEnv smallImageMem = false := by
    unfold refused
    rw [hloadaddr, hloadsize]
    decide
  simp only [sdmmcBoot, hread, hnot, Bool.false_eq_true, if_false]
  rfl

theorem smallImage_fits : ImageFits smallImage 0 := by
  constructor <;> decide +kernel

theorem sdmmcBoot_places_smallImage :
    (∀ k < 0x410,
      (sdmmcBoot smallImageCard plainEnv zeroState).mem (0x43C00000 + BitVec.ofNat _ k) =
      if 0x50 ≤ k ∧ k < 0x54 then (leBytes 0x410).getD (k - 0x50) 0 else smallImage k) ∧
    (SecondBootInfo.launchaddr (sdmmcBoot smallImageCard plainEnv zeroState).mem
      plainEnv.pTBI).toNat = 0x43C00000 := by
  have haddr : (SecondBootInfo.deviceaddr zeroState.mem (pSBI .aarch64)).toNat = 0 := by
    decide +kernel
  have hplaced := sdmmcBoot_places_image smallImageCard_reads rfl (by decide) haddr
    (dvd_zero 512) smallImage_fits smallImage_boots
  have hloadaddr : mptrs .aarch64 (Tbbinfo.loadaddr (deviceHeader smallImage 0) 0) =
      0x43C00000 := by decide +kernel
  have hloadsize : Tbbinfo.loadsize (deviceHeader smallImage 0) 0 = 0x10 := by decide +kernel
  simp only [hloadaddr, hloadsize, Nat.zero_add] at hplaced
  exact ⟨hplaced.1, hplaced.2.1.trans (by decide +kernel)⟩

end Gec6818Bl1

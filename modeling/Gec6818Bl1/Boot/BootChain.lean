import Gec6818Bl1.Boot.SdxcBoot
import Gec6818Bl1.Tools.ImageSize

/-!
# The boot chain

From the tools on the host to the next stage in memory. `mk_bl1_image.py` writes the image of BL1;
it gets onto a card together with the next stage, through `build_sd` of the emulator or through
`write_sdcard.py`; the boot ROM copies BL1 from the card to the SRAM; and there BL1's `iSDXCBOOT`
reads in its own header where the next stage is on the card, and loads it.

Each link leaves what the next one looks for: a card that `Carries` both images, and a memory with
BL1's header at the start of the SRAM.
-/

namespace Gec6818Bl1

open ByteMem Tools

/-! ## Cards -/

/-- BL1 is behind the first sector of the card, and the next stage where BL1's header says. -/
structure Carries (sd bl1 next : List Byte) : Prop where
  fits : 0x200 + bl1.length ≤ sd.length
  first : ∀ k < bl1.length, sd.getD (0x200 + k) 0 = bl1.getD k 0
  second : ∀ k < next.length, sd.getD ((wordAt bl1 0x40).toNat + k) 0 = next.getD k 0

theorem buildSd_carries {bl1 next sd : List Byte} (h : buildSd bl1 (some next) = .ok sd) :
    Carries sd bl1 next := by
  obtain ⟨rest, hrest⟩ := buildSd_prefix h
  have hlen := congrArg List.length hrest
  simp only [List.length_append, List.length_replicate] at hlen
  refine ⟨by omega, fun k hk => ?_, fun k hk => ?_⟩
  · have hsector : (List.replicate 0x200 (0 : Byte)).length ≤ 0x200 + k := by
      rw [List.length_replicate]
      omega
    rw [← hrest, List.append_assoc, List.getD_append_right _ _ _ _ hsector,
      List.length_replicate, Nat.add_sub_cancel_left, List.getD_append _ _ _ _ hk]
  · unfold buildSd at h
    split at h
    · cases h
    simp only at h
    split at h
    · cases h
    rename_i hfits
    cases h
    have hdev : (ljust (List.replicate 0x200 0 ++ bl1)
        (wordAt bl1 0x40).toNat).length = (wordAt bl1 0x40).toNat := by
      rw [ljust, List.length_append, List.length_replicate, Int.toNat_natCast]
      omega
    rw [ljust, List.getD_append _ _ _ _ (by rw [List.length_append, hdev]; omega),
      List.getD_append_right _ _ _ _ (by rw [hdev]; omega), hdev, Nat.add_sub_cancel_left]

theorem mapM_load_mem {files : List (Slot × List Byte)} {items : List Item}
    (h : (files.mapM fun (slot, data) => Item.load slot data) = .ok items) :
    ∀ file ∈ files, ∃ it ∈ items, it.toSlot = file.1 ∧ it.data = file.2 := by
  induction files generalizing items with
  | nil => exact List.forall_mem_nil _
  | cons file files ih =>
    rw [List.mapM_cons] at h
    obtain ⟨it, hit, h⟩ := bind_eq_ok h
    obtain ⟨rest, hrest, h⟩ := bind_eq_ok h
    cases h
    refine List.forall_mem_cons.2
      ⟨⟨it, List.mem_cons_self, Item.load_eq_ok hit⟩, fun file' hfile => ?_⟩
    obtain ⟨it', hmem, hit'⟩ := ih hrest file' hfile
    exact ⟨it', List.mem_cons_of_mem it hmem, hit'⟩

/-- A plan has an item for each file. -/
theorem buildPlan_mem {imgs : Images} {items : List Item} (h : buildPlan imgs = .ok items) :
    ∀ file ∈ imgs.files, ∃ it ∈ items, it.toSlot = file.1 ∧ it.data = file.2 := by
  obtain ⟨loaded, hloaded, h⟩ := bind_eq_ok h
  intro file hfile
  obtain ⟨it, hmem, hit⟩ := mapM_load_mem hloaded file hfile
  dsimp only at h
  split at h
  · cases h
  · refine ⟨it, ?_, hit⟩
    rw [← Except.ok.inj h, List.mem_mergeSort]
    exact hmem

/-- The file for the slot of BL1. -/
def Tools.Images.bl1 : Images → List Byte
  | .atf bl1 _ _ _ => bl1
  | .direct bl1 _ => bl1

/-- The file for the slot where BL1 looks for the next stage: the loader of the FIPs, or U-Boot. -/
def Tools.Images.next : Images → List Byte
  | .atf _ fipLoader _ _ => fipLoader
  | .direct _ uboot => uboot

theorem Tools.Images.bl1_mem_files (imgs : Images) : (bl1Slot, imgs.bl1) ∈ imgs.files := by
  cases imgs <;> exact List.mem_cons_self

theorem Tools.Images.next_mem_files (imgs : Images) :
    ∃ slot, slot.offset = defaultDeviceaddr ∧ (slot, imgs.next) ∈ imgs.files := by
  cases imgs with
  | atf => exact ⟨fipLoaderSlot, rfl, List.mem_cons_of_mem _ List.mem_cons_self⟩
  | direct => exact ⟨directUbootSlot, rfl, List.mem_cons_of_mem _ List.mem_cons_self⟩

/-- The content of a card that `write_sdcard.py` has written in either mode, when every call of
`os.pwrite` wrote all of its data. -/
theorem doWrite_carries {imgs : Images} {items : List Item} {t : Target}
    {answers : List (Option ℕ)} {sd : List Byte} (hplan : buildPlan imgs = .ok items)
    (hcount : ∀ p ∈ calls items answers, CountOk t p ∧ p.2 = p.1.data.length)
    (hdone : doWrite t items answers = some sd)
    (hdev : (wordAt imgs.bl1 0x40).toNat = defaultDeviceaddr) :
    Carries sd imgs.bl1 imgs.next := by
  have hran := doWrite_ran (buildPlan_ok hplan) (fun p hp => (hcount p hp).1) hdone
  have hstored {it : Item} (hit : it ∈ items) {j : ℕ} (hj : j < it.data.length) :
      sd[it.offset + j]? = it.data[j]? := by
    rw [← hran.items_eq, List.mem_map] at hit
    obtain ⟨p, hp, rfl⟩ := hit
    exact hran.stored p hp j ((hcount p hp).2.symm ▸ hj)
  have hgetD {it : Item} (hit : it ∈ items) {j : ℕ} (hj : j < it.data.length) :
      sd.getD (it.offset + j) 0 = it.data.getD j 0 := by
    rw [List.getD_eq_getElem?_getD, hstored hit hj, List.getD_eq_getElem?_getD]
  obtain ⟨slot, hslot, hnext⟩ := imgs.next_mem_files
  obtain ⟨a, ha, haslot, hbl1⟩ := buildPlan_mem hplan _ imgs.bl1_mem_files
  obtain ⟨b, hb, hbslot, hnext⟩ := buildPlan_mem hplan _ hnext
  have haoff : a.offset = 0x200 := by rw [haslot]; rfl
  have hboff : b.offset = defaultDeviceaddr := by rw [hbslot, hslot]
  dsimp only at hbl1 hnext
  rw [← hbl1, ← hnext]
  rw [← hbl1] at hdev
  refine ⟨?_, fun k hk => ?_, fun k hk => ?_⟩
  · have hpos : a.data ≠ [] := by
      intro hnil
      rw [hnil] at hdev
      exact absurd hdev (by decide)
    have hlen := List.length_pos_iff.2 hpos
    have hlast : sd[a.offset + (a.data.length - 1)]? = a.data[a.data.length - 1]? :=
      hstored ha (by omega)
    rcases Nat.lt_or_ge (a.offset + (a.data.length - 1)) sd.length with hlt | hge
    · omega
    · rw [List.getElem?_eq_none hge, List.getElem?_eq_getElem (by omega)] at hlast
      cases hlast
  · rw [← haoff, hgetD ha hk]
  · rw [hdev, ← hboff, hgetD hb hk]

/-! ## The boot ROM -/

theorem Carries.drop_take {bl1 next sd : List Byte} (h : Carries sd bl1 next) :
    (sd.drop 0x200).take bl1.length = bl1 := by
  have hfits := h.fits
  refine List.ext_getElem (by rw [List.length_take, List.length_drop]; omega) fun k hk hk' => ?_
  have hbyte := h.first k hk'
  rw [List.getD_eq_getElem _ _ (by omega), List.getD_eq_getElem _ _ hk'] at hbyte
  rw [List.getElem_take, List.getElem_drop, hbyte]

/-- What the boot ROM does with a card that carries an image of `mk_bl1_image.py`. -/
theorem Carries.bootRom_eq {args : ImageArgs} {bl1 next header sd : List Byte}
    (h : Carries sd bl1 next) (hbuild : mkBl1Image args = .ok bl1)
    (hheader : parseNsihTxt args.headerText = .ok header)
    (hload : loadAddrOf header = baseaddrSram) (hsize : bl1.length ≤ internalSramSize) :
    bootRom sd = .ok (.sram, 0, bl1) := by
  obtain ⟨header', code, stage2, hacc, rfl⟩ := mkBl1Image_ok_iff.1 hbuild
  obtain rfl : header = header' := Except.ok.inj (hheader.symm.trans hacc.parsed)
  rw [← imageFile] at h hsize ⊢
  have htake := h.drop_take
  -- the first sector is not looked at
  have hprefix : List.replicate 0x200 0 ++ imageFile args header code <+:
      List.replicate 0x200 0 ++ sd.drop 0x200 :=
    List.prefix_append_right_inj _ |>.2 (htake ▸ List.take_prefix _ _)
  have hword (off : ℕ) : wordAt sd (0x200 + off) =
      wordAt (List.replicate 0x200 0 ++ sd.drop 0x200) (0x200 + off) := by
    refine wordAt_congr fun j _ => ?_
    have hlen : (List.replicate 0x200 (0 : Byte)).length ≤ 0x200 + off + j := by
      rw [List.length_replicate]
      omega
    rw [List.getD_append_right _ _ _ _ hlen, List.length_replicate, List.getD_eq_getElem?_getD,
      List.getD_eq_getElem?_getD, List.getElem?_drop, show 0x200 + (0x200 + off + j - 0x200) =
        0x200 + off + j by omega]
  have hinfo : bl1Info sd = ((imageFile args header code).length, loadAddrOf header) := by
    rw [← hacc.bl1Info_eq hprefix, bl1Info, bl1Info, hword, hword]
  have hram : ram baseaddrSram (imageFile args header code).length = .ok (.sram, 0) :=
    if_pos ⟨Nat.le_refl _, Nat.add_le_add_left hsize _⟩
  have hin : ¬((imageFile args header code).length > internalSramSize ∨
      ¬(baseaddrSram ≤ baseaddrSram ∧ baseaddrSram < baseaddrSram + internalSramSize)) := by
    rw [internalSramSize] at hsize ⊢
    omega
  simp only [bootRom, hinfo, hload, htake, hram, if_neg hin]

/-! ## The loader -/

section Loader

variable {mode : OpMode} {env : BootEnv mode} {mem : Mem mode.width} {bl1 next sd : List Byte}

/-- BL1's header is at the start of the SRAM. -/
def HeaderAt (mem : Mem mode.width) (bl1 : List Byte) : Prop :=
  ∀ k < 0x200, mem (pSBI mode + BitVec.ofNat _ k) = bl1.getD k 0

theorem HeaderAt.deviceaddr (h : HeaderAt mem bl1) :
    SecondBootInfo.deviceaddr mem (pSBI mode) = wordAt bl1 0x40 := by
  have hbyte {j : ℕ} (hj : j < 4) :
      mem (pSBI mode + BitVec.ofNat _ 0x40 + BitVec.ofNat _ j) = bl1.getD (0x40 + j) 0 := by
    rw [ofNat_add, h _ (by omega)]
  rw [SecondBootInfo.deviceaddr, load32, wordAt, h 0x40 (by decide),
    hbyte (by decide : 1 < 4), hbyte (by decide : 2 < 4), hbyte (by decide : 3 < 4)]

/-- The image of the next stage is all there. -/
structure Complete (next : List Byte) : Prop where
  fits : ImageFits (fun i => next.getD i 0) 0
  length : 0x400 + (Tbbinfo.loadsize (deviceHeader (fun i => next.getD i 0) 0) 0).toNat ≤
    next.length

theorem Carries.deviceHeader_eq (h : Carries sd bl1 next) {k : ℕ} (hk : k < next.length)
    (hk64 : k < 2 ^ 64) :
    deviceHeader (fun i => sd.getD i 0) (wordAt bl1 0x40).toNat (0 + BitVec.ofNat 64 k) =
      deviceHeader (fun i => next.getD i 0) 0 (0 + BitVec.ofNat 64 k) := by
  rw [deviceHeader_apply _ _ hk64, deviceHeader_apply _ _ hk64, h.second k hk, Nat.zero_add]

/-- The next stage's header reads the same on the card. -/
theorem Carries.fields (h : Carries sd bl1 next) (hlen : 0x200 ≤ next.length) :
    let card := deviceHeader (fun i => sd.getD i 0) (wordAt bl1 0x40).toNat
    let file := deviceHeader (fun i => next.getD i 0) 0
    SecondBootInfo.signature card 0 = SecondBootInfo.signature file 0 ∧
      Tbbinfo.loadsize card 0 = Tbbinfo.loadsize file 0 ∧
      Tbbinfo.loadaddr card 0 = Tbbinfo.loadaddr file 0 ∧
      Tbbinfo.startaddr card 0 = Tbbinfo.startaddr file 0 := by
  have hbyte (k : ℕ) (hk : k < 0x200) := h.deviceHeader_eq (show k < next.length by omega)
    (show k < 2 ^ 64 by omega)
  exact ⟨load32_copy fun k _ hk => hbyte k (by omega), load32_copy fun k _ hk => hbyte k (by omega),
    load64_copy fun k _ hk => hbyte k (by omega), load64_copy fun k _ hk => hbyte k (by omega)⟩

/-- What BL1's loader does on an ideal card that carries a complete next stage. -/
theorem Carries.sdmmcBoot (h : Carries sd bl1 next) (hnext : Complete next)
    (hmem : HeaderAt mem bl1) (hdev : 512 ∣ (wordAt bl1 0x40).toNat)
    (hsec : env.secureOn = false) (hdec : env.decrypts = false) :
    let s := Gec6818Bl1.sdmmcBoot (idealCard fun i => sd.getD i 0) env ⟨mem, ()⟩
    (s.result = true ↔ Bootable (fun i => next.getD i 0) 0) ∧
      (Bootable (fun i => next.getD i 0) 0 →
        Placed env (fun i => next.getD i 0) 0 mem s.mem) ∧
      (¬Bootable (fun i => next.getD i 0) 0 → ∀ a ∉ block env.pTBI 512, s.mem a = mem a) := by
  have hlen := hnext.length
  obtain ⟨hsig, hsize, hload, hstart⟩ := h.fields (by omega)
  have hfit : ImageFits (fun i => sd.getD i 0) (wordAt bl1 0x40).toNat := by
    obtain ⟨hla, hsa, hls⟩ := hnext.fits
    rw [← hload] at hla
    rw [← hstart] at hsa
    rw [← hsize] at hls
    exact ⟨hla, hsa, hls⟩
  obtain ⟨hresult, hplaced, hframe⟩ := sdmmcBoot_idealCard hsec hdec
    (congrArg BitVec.toNat hmem.deviceaddr) hdev hfit
  have hiff : Bootable (fun i => sd.getD i 0) (wordAt bl1 0x40).toNat ↔
      Bootable (fun i => next.getD i 0) 0 := by
    rw [Bootable, Bootable, hsig, hload, hsize]
  rw [hiff] at hresult hplaced hframe
  refine ⟨hresult, fun hboot => ?_, hframe⟩
  obtain ⟨himage, hlaunch, hrest⟩ := hplaced hboot
  rw [hload, hsize] at himage hrest
  refine ⟨fun k hk => ?_, hlaunch.trans (congrArg BitVec.toNat hstart), hrest⟩
  rw [himage k hk, h.second k (by omega), Nat.zero_add]

end Loader

/-! ## The chain -/

section Chain

open Sdmmc Emulator Emulator.Dwmmc

/-- Where a region of the memory begins. -/
def ramBase : Ram → ℕ
  | .sram => baseaddrSram
  | .ddr => Tools.ddrBase

/-- The memory after the boot ROM. -/
def afterRom {w : ℕ} (mem : Mem w) : Ram × ℕ × List Byte → Mem w
  | (region, off, data) => write mem (BitVec.ofNat w (ramBase region + off)) data

theorem headerAt_afterRom {mode : OpMode} (mem : Mem mode.width) {bl1 : List Byte}
    (hlen : 0x200 ≤ bl1.length) (hsize : bl1.length ≤ internalSramSize) :
    HeaderAt (afterRom mem (.sram, 0, bl1)) bl1 := by
  intro k hk
  have hw : bl1.length ≤ 2 ^ mode.width :=
    hsize.trans (Nat.le_trans (by decide) OpMode.two_pow_le)
  rw [List.getD_eq_getElem _ _ (by omega)]
  exact write_add mem _ (by omega) hw

/-- Whatever state a guest has left the emulator in with the card, and whatever else is in memory,
as long as it is where the boot ROM put it that BL1's header is: `iSDXCBOOT` returns, it boots
exactly if the next stage has a good header, and then the next stage is in memory; otherwise nothing
but `*pTBI` has changed. -/
def LoadsNext (mode : OpMode) (sd next : List Byte) (rom : Ram × ℕ × List Byte) : Prop :=
  ∀ {env : BootEnv mode} {mem₀ mem : Mem mode.width} {s : Dwmmc} {srcFreq : BitVec 32} {fuel : ℕ},
    env.secureOn = false → env.decrypts = false →
    (∀ a ∈ block (pSBI mode) 0x200, mem a = afterRom mem₀ rom a) →
    Reachable sd s → 50000000 ≤ srcFreq.toNat → 2 ^ 30 ≤ fuel →
    ∀ (rest : ExtReg → BitVec 32) (nxDebug : Bool) (sdPort : Fin 3) (card : AppCommand.SdxcCard),
      ∃ result mem' dev', iSdxcBoot emulatorPort nxDebug mode fuel srcFreq env sdPort card mem
          (some s, rest) = some (result, mem', dev') ∧
        (result = true ↔ Bootable (fun i => next.getD i 0) 0) ∧
        (Bootable (fun i => next.getD i 0) 0 →
          Placed env (fun i => next.getD i 0) 0 mem mem') ∧
        (¬Bootable (fun i => next.getD i 0) 0 → ∀ a ∉ block env.pTBI 512, mem' a = mem a)

variable {args : ImageArgs} {header bl1 next sd : List Byte}

theorem Carries.loadsNext (h : Carries sd bl1 next) (mode : OpMode) (hnext : Complete next)
    (hlen : 0x200 ≤ bl1.length) (hsize : bl1.length ≤ internalSramSize)
    (hdev : 512 ∣ (wordAt bl1 0x40).toNat) : LoadsNext mode sd next (.sram, 0, bl1) := by
  intro env mem₀ mem s srcFreq fuel hsec hdec hkept hreach hsrc hfuel rest nxDebug sdPort card
  have hmem : HeaderAt mem bl1 := fun k hk => by
    rw [hkept _ (add_mem_block _ hk)]
    exact headerAt_afterRom mem₀ hlen hsize k hk
  obtain ⟨dev', hboot⟩ := iSdxcBoot_ideal hreach rest nxDebug hsrc hfuel sdPort card env mem
  exact ⟨_, _, dev', hboot, h.sdmmcBoot hnext hmem hdev hsec hdec⟩

/-- An image of `mk_bl1_image.py` that is for the start of the SRAM and fits there. -/
structure ForSram (args : ImageArgs) (bl1 : List Byte) : Prop where
  build : mkBl1Image args = .ok bl1
  load : ∀ header, parseNsihTxt args.headerText = .ok header → loadAddrOf header = baseaddrSram
  size : bl1.length ≤ internalSramSize

theorem ForSram.length (h : ForSram args bl1) : 0x200 ≤ bl1.length := by
  obtain ⟨header, code, stage2, hacc, rfl⟩ := mkBl1Image_ok_iff.1 h.build
  rw [← imageFile, hacc.length_file, nsihSize]
  omega

theorem ForSram.bootRom (h : ForSram args bl1) (hsd : Carries sd bl1 next) :
    Tools.bootRom sd = .ok (.sram, 0, bl1) := by
  obtain ⟨header, code, stage2, hacc, -⟩ := mkBl1Image_ok_iff.1 h.build
  exact hsd.bootRom_eq h.build hacc.parsed (h.load header hacc.parsed) h.size

/-- **The chain on the emulator.** From the files to the next stage in memory: with an image that
`mk_bl1_image.py` wrote for the SRAM, on the card that `build_sd` makes of it, the boot ROM starts
BL1, and BL1 loads the next stage. -/
theorem boot_chain (h : ForSram args bl1) (hsd : buildSd bl1 (some next) = .ok sd)
    (hnext : Complete next) (hdev : 512 ∣ (wordAt bl1 0x40).toNat) (mode : OpMode) :
    Tools.bootRom sd = .ok (.sram, 0, bl1) ∧ LoadsNext mode sd next (.sram, 0, bl1) := by
  have hcarries := buildSd_carries hsd
  exact ⟨h.bootRom hcarries, hcarries.loadsNext mode hnext h.length h.size hdev⟩

/-- **The chain from a written card.** The same with the card that `write_sdcard.py` leaves in
either mode, whatever was on it before. -/
theorem boot_chain_written {imgs : Images} {items : List Item} {t : Target}
    {answers : List (Option ℕ)} (h : ForSram args imgs.bl1) (hplan : buildPlan imgs = .ok items)
    (hcount : ∀ p ∈ calls items answers, CountOk t p ∧ p.2 = p.1.data.length)
    (hdone : doWrite t items answers = some sd)
    (hdev : (wordAt imgs.bl1 0x40).toNat = defaultDeviceaddr) (hnext : Complete imgs.next)
    (mode : OpMode) :
    Tools.bootRom sd = .ok (.sram, 0, imgs.bl1) ∧
      LoadsNext mode sd imgs.next (.sram, 0, imgs.bl1) := by
  have hcarries := doWrite_carries hplan hcount hdone hdev
  refine ⟨h.bootRom hcarries, hcarries.loadsNext mode hnext h.length h.size ?_⟩
  rw [hdev]
  decide

/-! ## A small chain -/

/-- A header with the next stage at `0x10200` on the card. -/
def chainText : List Char :=
  (List.replicate 16 "00000000\n".toList).flatten ++ "00010200\n".toList ++
    "00000000\n".toList ++ "FFFF0000\n".toList ++
    (List.replicate 108 "00000000\n".toList).flatten ++ "4849534E\n".toList

/-- Three bytes of BL1. -/
def chainArgs : ImageArgs where
  rawBin := [1, 2, 3]
  port := .sd
  headerText := chainText
  opmode := .aarch64
  stage2 := none
  stage2Addr := none
  stage2End := none
  bl1End := none

theorem chainArgs_built : ∃ bl1, ForSram chainArgs bl1 ∧ hasSignature bl1 = true ∧
    wordAt bl1 0x40 = 0x10200 ∧ bl1.length = 0x203 := by
  have hbuilt : (mkBl1Image chainArgs).map (fun bl1 =>
      (hasSignature bl1, wordAt bl1 0x40, bl1.length)) = .ok (true, 0x10200, 0x203) := by
    decide +kernel
  have hload : (parseNsihTxt chainText).map loadAddrOf = .ok baseaddrSram := by decide +kernel
  cases hbl1 : mkBl1Image chainArgs with
  | error e =>
    rw [hbl1] at hbuilt
    cases hbuilt
  | ok bl1 =>
    rw [hbl1] at hbuilt
    obtain ⟨hsig, hrest⟩ := Prod.mk.inj (Except.ok.inj hbuilt)
    obtain ⟨hdev, hlen⟩ := Prod.mk.inj hrest
    refine ⟨bl1, ⟨hbl1, fun header hheader => ?_, ?_⟩, hsig, hdev, hlen⟩
    · rw [show chainArgs.headerText = chainText from rfl] at hheader
      rw [hheader] at hload
      exact Except.ok.inj hload
    · rw [hlen]
      decide

/-- The small image with its payload. -/
def chainNext : List Byte := smallImageFile ++ List.replicate 0x210 0

theorem length_chainNext : chainNext.length = 0x410 := by
  rw [chainNext, smallImageFile, List.length_append, List.length_map, List.length_range,
    List.length_replicate]

theorem chainNext_complete : Complete chainNext := by
  have hbytes : (fun i => chainNext.getD i 0) = smallImage := by
    rw [← smallImageFile_getD]
    funext i
    rw [chainNext]
    by_cases hi : i < smallImageFile.length
    · rw [List.getD_append _ _ _ _ hi]
    · have hge := Nat.not_lt.1 hi
      rw [List.getD_append_right _ _ _ _ hge, List.getD_eq_default _ _ hge,
        List.getD_eq_getElem?_getD]
      exact List.getElem?_getD_replicate_default_eq _ _ _
  constructor
  · rw [hbytes]
    exact smallImage_fits
  · rw [hbytes, length_chainNext]
    decide +kernel

theorem boot_chain_small : ∃ bl1 sd, ForSram chainArgs bl1 ∧
    buildSd bl1 (some chainNext) = .ok sd ∧ Tools.bootRom sd = .ok (.sram, 0, bl1) ∧
    LoadsNext .aarch64 sd chainNext (.sram, 0, bl1) := by
  obtain ⟨bl1, hbl1, hsig, hdev, hlen⟩ := chainArgs_built
  obtain ⟨sd, hsd⟩ : ∃ sd, buildSd bl1 (some chainNext) = .ok sd := by
    have hfits : ¬(List.replicate 0x200 (0 : Byte) ++ bl1).length > (wordAt bl1 0x40).toNat := by
      rw [List.length_append, List.length_replicate, hlen, hdev]
      decide
    unfold buildSd
    rw [hsig, if_neg nofun]
    simp only [if_neg hfits]
    exact ⟨_, rfl⟩
  have hchain := boot_chain hbl1 hsd chainNext_complete (by rw [hdev]; decide) .aarch64
  exact ⟨bl1, sd, hbl1, hsd, hchain.1, hchain.2⟩

/-- Files that fit are written to a new file. -/
theorem doWrite_newFile (bl1 fipLoader fipSecure fipNonsecure : List Byte)
    (hfits : bl1.length ≤ bl1Slot.slotSize ∧ fipLoader.length ≤ fipLoaderSlot.slotSize ∧
      fipSecure.length ≤ fipSecureSlot.slotSize ∧
      fipNonsecure.length ≤ fipNonsecureSlot.slotSize)
    (hne : ∀ data ∈ [bl1, fipLoader, fipSecure, fipNonsecure], data ≠ []) :
    ∃ items answers sd, buildPlan (.atf bl1 fipLoader fipSecure fipNonsecure) = .ok items ∧
      doWrite newFile items answers = some sd ∧
      ∀ p ∈ calls items answers, CountOk newFile p ∧ p.2 = p.1.data.length := by
  obtain ⟨ha, hb, hc, hd⟩ := hfits
  let a : Item := { bl1Slot with data := bl1, fits := ha }
  let b : Item := { fipLoaderSlot with data := fipLoader, fits := hb }
  let c : Item := { fipSecureSlot with data := fipSecure, fits := hc }
  let d : Item := { fipNonsecureSlot with data := fipNonsecure, fits := hd }
  have hsort : [a, b, c, d].mergeSort (fun a b => a.offset ≤ b.offset) = [a, b, c, d] := by
    apply List.mergeSort_of_pairwise
    have hslots : [bl1Slot, fipLoaderSlot, fipSecureSlot, fipNonsecureSlot].Pairwise
        fun a b => decide (a.offset ≤ b.offset) = true := by decide
    exact List.pairwise_map.1 (show ([a, b, c, d].map Item.toSlot).Pairwise _ from hslots)
  have hab : ¬a.stop > b.offset := Nat.not_lt.2 (Nat.add_le_add_left ha 0x200)
  have hbc : ¬b.stop > c.offset := Nat.not_lt.2 (Nat.add_le_add_left hb 0x10200)
  have hcd : ¬c.stop > d.offset :=
    Nat.not_lt.2 (Nat.le_trans (Nat.add_le_add_left hc 0x60200)
      (show 0x60200 + fipSecureSlot.slotSize ≤ fipNonsecureSlot.offset by decide))
  have hplan : buildPlan (.atf bl1 fipLoader fipSecure fipNonsecure) = .ok [a, b, c, d] := by
    have ha' : Item.load bl1Slot bl1 = .ok a := dif_pos ha
    have hb' : Item.load fipLoaderSlot fipLoader = .ok b := dif_pos hb
    have hc' : Item.load fipSecureSlot fipSecure = .ok c := dif_pos hc
    have hd' : Item.load fipNonsecureSlot fipNonsecure = .ok d := dif_pos hd
    simp only [buildPlan, Images.files, List.mapM_cons, List.mapM_nil, ha', hb', hc', hd', bind,
      Except.bind, pure, Except.pure, hsort, List.tail_cons, List.zip_cons_cons,
      List.zip_nil_right, List.find?_cons, decide_eq_false hab, decide_eq_false hbc,
      decide_eq_false hcd, List.find?_nil]
  refine ⟨_, [a, b, c, d].map fun it => some it.data.length, _, hplan, rfl, ?_⟩
  have hcalls : calls [a, b, c, d] ([a, b, c, d].map fun it => some it.data.length) =
    [a, b, c, d].map fun it => (it, it.data.length) := rfl
  rw [hcalls, List.forall_mem_map]
  intro it hit
  have hdata : it.data ≠ [] := hne _ (List.mem_map_of_mem (f := Item.data) hit)
  exact ⟨newFile_countOk (Nat.le_refl _) fun _ => List.length_pos_iff.2 hdata, rfl⟩

/-- The same files on a card that is a new file, with two FIPs of a byte. -/
theorem boot_chain_written_small : ∃ bl1 sd, ForSram chainArgs bl1 ∧
    Tools.bootRom sd = .ok (.sram, 0, bl1) ∧ LoadsNext .aarch64 sd chainNext (.sram, 0, bl1) := by
  obtain ⟨bl1, hbl1, -, hdev, hlen⟩ := chainArgs_built
  have hnext := length_chainNext
  have hcomplete := chainNext_complete
  generalize chainNext = next at hnext hcomplete ⊢
  have hbl1_ne : bl1 ≠ [] := List.ne_nil_of_length_pos (by omega)
  have hnext_ne : next ≠ [] := List.ne_nil_of_length_pos (by omega)
  obtain ⟨items, answers, sd, hplan, hdone, hcount⟩ :=
    doWrite_newFile bl1 next [1] [2] ⟨by rw [hlen]; decide, by rw [hnext]; decide, by decide,
      by decide⟩ (by simp [hbl1_ne, hnext_ne])
  have hsram : ForSram chainArgs (Images.atf bl1 next [1] [2]).bl1 := hbl1
  have hchain := boot_chain_written hsram hplan hcount hdone
    (show (wordAt bl1 0x40).toNat = _ by rw [hdev]; rfl) hcomplete .aarch64
  exact ⟨bl1, sd, hbl1, hchain.1, hchain.2⟩

end Chain

end Gec6818Bl1

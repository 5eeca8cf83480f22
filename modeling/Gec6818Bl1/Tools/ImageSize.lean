import Gec6818Bl1.Tools.MkBl1Image
import Gec6818Bl1.Tools.WriteSdcard

/-!
# How large an image may be

An image has to pass three places after it is built. The boot ROM copies `LOADSIZE` bytes to
`LOADADDR`, and the SRAM has 64 KiB; `write_sdcard.py` has a slot of 64 KiB for it; and on the card
the next stage begins at `0x10200`. The boot ROM here is the model that the emulator has of it.

`mk_bl1_image.py` knows none of these limits. What it writes can be booted iff `LOADADDR` is in the
SRAM and the image ends in it.
-/

namespace Gec6818Bl1.Tools

open ByteMem Splice

/-! ## The boot ROM -/

def ddrBase : ℕ := 0x40000000
def ddrSize : ℕ := 0x40000000

inductive BootError where
  /-- `no NSIH signature at 0x1fc`. -/
  | noSignature
  /-- `BL1 image overlaps DEVICEADDR`. -/
  | overlapsDeviceaddr
  /-- `LOADSIZE ... doesn't fit SRAM`. -/
  | doesNotFit
  /-- The `ValueError` of `ram`. -/
  | notInRam
  deriving DecidableEq

inductive Ram where
  | sram
  | ddr
  deriving DecidableEq

/-- `Board.ram`: the region a range of addresses is in, and its offset there. -/
def ram (addr length : ℕ) : Except BootError (Ram × ℕ) :=
  if baseaddrSram ≤ addr ∧ addr + length ≤ baseaddrSram + internalSramSize then
    .ok (.sram, addr - baseaddrSram)
  else if ddrBase ≤ addr ∧ addr + length ≤ ddrBase + ddrSize then .ok (.ddr, addr - ddrBase)
  else .error .notInRam

/-- The card as `build_sd` makes it from BL1's image and, if there is one, the next stage. -/
def buildSd (bl1 : List Byte) (next : Option (List Byte)) : Except BootError (List Byte) :=
  if hasSignature bl1 = false then .error .noSignature else
  let devaddr := (wordAt bl1 0x40).toNat
  let pad sd := ljust sd (((sd.length + 0xFFFFF) / 0x100000 * 0x100000 : ℕ) : ℤ)
  let sd := List.replicate 0x200 0 ++ bl1
  match next with
  | none => .ok (pad sd)
  | some nxt =>
    if sd.length > devaddr then .error .overlapsDeviceaddr else .ok (pad (ljust sd devaddr ++ nxt))

/-- What `describe_images` finds of BL1: `LOADSIZE` and `LOADADDR`. -/
def bl1Info (sd : List Byte) : ℕ × ℕ :=
  ((wordAt sd (0x200 + 0x44)).toNat, (wordAt sd (0x200 + 0x48)).toNat)

/-- Where the boot ROM copies BL1, and what. -/
def bootRom (sd : List Byte) : Except BootError (Ram × ℕ × List Byte) :=
  let (size, load) := bl1Info sd
  if size > internalSramSize ∨
      ¬ (baseaddrSram ≤ load ∧ load < baseaddrSram + internalSramSize) then .error .doesNotFit
  else
    let data := (sd.drop 0x200).take size
    match ram load data.length with
    | .ok (region, off) => .ok (region, off, data)
    | .error e => .error e

/-! ## What an image has to pass -/

/-- The default `DEVICEADDR`, where the next stage begins on a card. -/
def defaultDeviceaddr : ℕ := 0x10200

/-- The image ends in the SRAM, the boot ROM copies it there as a whole, the card writer takes it,
and it ends before the next stage. -/
structure Bootable (load : ℕ) (file : List Byte) : Prop where
  inSram : load + file.length ≤ baseaddrSram + internalSramSize ∧ file.length ≤ internalSramSize
  card : ∃ sd, buildSd file none = .ok sd
  rom : ∀ next sd, buildSd file next = .ok sd →
    bootRom sd = .ok (.sram, load - baseaddrSram, file)
  slot : ∃ it, Item.load bl1Slot file = .ok it
  next : bl1Slot.offset + file.length ≤ defaultDeviceaddr

/-- The bytes behind the header. -/
def codeLength (args : ImageArgs) (load : ℕ) : ℕ :=
  match args.stage2, args.stage2Addr with
  | some binary, some addr =>
    max args.rawBin.length (addr - (load + codeOffset)).toNat + binary.length
  | _, _ => args.rawBin.length

/-! ## From the image to the card -/

/-- A card begins with an empty sector and the image. -/
theorem buildSd_prefix {file sd : List Byte} {next : Option (List Byte)}
    (h : buildSd file next = .ok sd) : List.replicate 0x200 0 ++ file <+: sd := by
  have hpad (xs : List Byte) (n : ℤ) : xs <+: ljust xs n := List.prefix_append _ _
  unfold buildSd at h
  split at h
  · cases h
  · cases next with
    | none =>
      cases h
      exact hpad _ _
    | some nxt =>
      simp only at h
      split at h
      · cases h
      · cases h
        exact ((hpad _ _).trans (List.prefix_append _ _)).trans (hpad _ _)

theorem drop_take_of_prefix {file sd : List Byte} (h : List.replicate 0x200 0 ++ file <+: sd) :
    (sd.drop 0x200).take file.length = file := by
  obtain ⟨rest, rfl⟩ := h
  rw [List.append_assoc, List.drop_left' List.length_replicate, List.take_left]

theorem wordAt_of_prefix {file sd : List Byte} (h : List.replicate 0x200 0 ++ file <+: sd)
    {off : ℕ} (hoff : off + 4 ≤ file.length) : wordAt sd (0x200 + off) = wordAt file off := by
  obtain ⟨rest, rfl⟩ := h
  have hright := wordAt_append_right (List.replicate 0x200 0) (file ++ rest) off
  rw [List.length_replicate] at hright
  rw [List.append_assoc, hright, wordAt_append_left hoff]

section Image

variable {args : ImageArgs} {header code : List Byte} {stage2 : Option Stage2}

theorem Accepted.length_code (h : Accepted args header code stage2) :
    code.length = codeLength args (loadAddrOf header) := by
  have hgiven := h.given
  unfold ImageArgs.getStage2 at hgiven
  unfold codeLength
  split at hgiven
  · rename_i hnone
    cases hgiven
    have hcode : args.rawBin = code := Except.ok.inj h.built
    rw [hnone, hcode]
  · rename_i binary addr stage2End bl1End hbinary haddr _ _
    cases hgiven
    obtain ⟨-, -, hcode⟩ := imageCode_stage2 h.built
    rw [hbinary, haddr, hcode, List.length_append, length_ljust]
  · cases hgiven

theorem Accepted.bl1Info_eq (h : Accepted args header code stage2) {sd : List Byte}
    (hsd : List.replicate 0x200 0 ++ imageFile args header code <+: sd) :
    bl1Info sd = ((imageFile args header code).length, loadAddrOf header) := by
  have hlen := h.length_file
  rw [nsihSize] at hlen
  have hsize : wordAt (imageFile args header code) 0x44 =
      BitVec.ofNat 32 (nsihSize + code.length) := h.loadsize_word
  have haddr : wordAt (imageFile args header code) 0x48 = wordAt header 0x48 := by
    refine wordAt_congr fun j hj => ?_
    have hvector : ¬ (args.opmode = .aarch32 ∧ 0x48 + j < 64) := by omega
    have hport : 0x48 + j ≠ portNumberOffset := by
      rw [portNumberOffset]
      omega
    have hloadsize : ¬ (loadsizeOffset ≤ 0x48 + j ∧ 0x48 + j < loadsizeOffset + 4) := by
      rw [loadsizeOffset]
      omega
    rw [h.getD_header (by rw [nsihSize]; omega), getD_patchHeader, if_neg hvector, if_neg hport,
      if_neg hloadsize]
  rw [bl1Info, wordAt_of_prefix hsd (by omega), wordAt_of_prefix hsd (by omega), hsize, haddr,
    BitVec.toNat_ofNat, Nat.mod_eq_of_lt h.loadsize, h.length_file]
  rfl

theorem Accepted.buildSd_ok (h : Accepted args header code stage2) :
    ∃ sd, buildSd (imageFile args header code) none = .ok sd := by
  unfold buildSd
  rw [h.hasSignature_file, if_neg nofun]
  exact ⟨_, rfl⟩

/-- What the boot ROM does with an image on a card, whatever comes behind it. -/
theorem Accepted.bootRom_eq (h : Accepted args header code stage2) {sd : List Byte}
    {next : Option (List Byte)} (hsd : buildSd (imageFile args header code) next = .ok sd) :
    bootRom sd =
      if (imageFile args header code).length > internalSramSize ∨
        ¬ (baseaddrSram ≤ loadAddrOf header ∧
          loadAddrOf header < baseaddrSram + internalSramSize) then .error .doesNotFit
      else
        match ram (loadAddrOf header) (imageFile args header code).length with
        | .ok (region, off) => .ok (region, off, imageFile args header code)
        | .error e => .error e := by
  have hprefix := buildSd_prefix hsd
  simp only [bootRom, h.bl1Info_eq hprefix, drop_take_of_prefix hprefix]

end Image

/-- **Size.** An image that is written can be booted iff its `LOADADDR` is in the SRAM and it ends
there. -/
theorem mkBl1Image_bootable_iff {args : ImageArgs} {file : List Byte}
    (h : mkBl1Image args = .ok file) :
    (∃ header, parseNsihTxt args.headerText = .ok header ∧ Bootable (loadAddrOf header) file) ↔
      ∃ header, parseNsihTxt args.headerText = .ok header ∧ baseaddrSram ≤ loadAddrOf header ∧
        loadAddrOf header + codeOffset + codeLength args (loadAddrOf header) ≤
          baseaddrSram + internalSramSize := by
  obtain ⟨header, code, stage2, hacc, rfl⟩ := mkBl1Image_ok_iff.1 h
  have hlen : (imageFile args header code).length =
      codeOffset + codeLength args (loadAddrOf header) := by
    rw [hacc.length_file, hacc.length_code]
    rfl
  constructor
  · rintro ⟨header', hparsed, hboot⟩
    obtain rfl : header = header' := Except.ok.inj (hacc.parsed.symm.trans hparsed)
    rw [← imageFile] at hboot
    obtain ⟨sd, hsd⟩ := hboot.card
    have hrom := hboot.rom none sd hsd
    rw [hacc.bootRom_eq hsd] at hrom
    split at hrom
    · cases hrom
    · rename_i hfit
      rw [not_or, not_not] at hfit
      refine ⟨header, hparsed, hfit.2.1, ?_⟩
      rw [Nat.add_assoc, ← hlen]
      exact hboot.inSram.1
  · rintro ⟨header', hparsed, hge, hle⟩
    obtain rfl : header = header' := Except.ok.inj (hacc.parsed.symm.trans hparsed)
    rw [Nat.add_assoc, ← hlen] at hle
    refine ⟨header, hparsed, ?_⟩
    rw [← imageFile]
    have hsmall : (imageFile args header code).length ≤ internalSramSize := by omega
    have hpos : 0 < codeOffset := by decide
    constructor
    · exact ⟨hle, hsmall⟩
    · exact hacc.buildSd_ok
    · intro next sd hsd
      have hram : ram (loadAddrOf header) (imageFile args header code).length =
          .ok (.sram, loadAddrOf header - baseaddrSram) := if_pos ⟨hge, hle⟩
      rw [hacc.bootRom_eq hsd, if_neg ?_, hram]
      omega
    · exact ⟨_, dif_pos hsmall⟩
    · rw [internalSramSize] at hsmall
      change 0x200 + _ ≤ 0x10200
      omega

/-! ## One byte too many -/

/-- A header with `LOADADDR` at the start of the SRAM. -/
def sramText : List Char :=
  (List.replicate 18 "00000000\n".toList).flatten ++ "FFFF0000\n".toList ++
    (List.replicate 108 "00000000\n".toList).flatten ++ "4849534E\n".toList

/-- BL1's code is `n` zeros. -/
def sramArgs (n : ℕ) : ImageArgs where
  rawBin := List.replicate n 0
  port := .sd
  headerText := sramText
  opmode := .aarch64
  stage2 := none
  stage2Addr := none
  stage2End := none
  bl1End := none

theorem sramText_header : ∃ header, parseNsihTxt sramText = .ok header ∧
    hasSignature header = true ∧ loadAddrOf header = 0xFFFF0000 := by
  have hmap : (parseNsihTxt sramText).map (fun header => (hasSignature header, loadAddrOf header)) =
      .ok (true, 0xFFFF0000) := by decide +kernel
  cases hparsed : parseNsihTxt sramText with
  | error e =>
    rw [hparsed] at hmap
    cases hmap
  | ok header =>
    rw [hparsed] at hmap
    obtain ⟨hsig, haddr⟩ := Prod.mk.inj (Except.ok.inj hmap)
    exact ⟨header, rfl, hsig, haddr⟩

theorem sramArgs_accepted {n : ℕ} (hn : n < 2 ^ 31) : ∃ header,
    Accepted (sramArgs n) header (List.replicate n 0) none ∧ loadAddrOf header = 0xFFFF0000 := by
  obtain ⟨header, hparsed, hsig, haddr⟩ := sramText_header
  refine ⟨header, ⟨rfl, hparsed, hsig, rfl, ?_⟩, haddr⟩
  rw [List.length_replicate, nsihSize]
  omega

theorem sramArgs_bootable :
    ∃ file, mkBl1Image (sramArgs 3) = .ok file ∧
      ∃ header, parseNsihTxt (sramArgs 3).headerText = .ok header ∧
        Bootable (loadAddrOf header) file := by
  obtain ⟨header, hacc, haddr⟩ := sramArgs_accepted (n := 3) (by decide)
  have hfile := mkBl1Image_ok_iff.2 ⟨header, _, _, hacc, rfl⟩
  refine ⟨_, hfile, (mkBl1Image_bootable_iff hfile).2 ⟨header, hacc.parsed, ?_⟩⟩
  rw [haddr]
  decide

/-- Code of 65025 bytes makes an image of 64 KiB and one byte. It is written all the same. -/
theorem sramArgs_not_bootable :
    ∃ file, mkBl1Image (sramArgs 65025) = .ok file ∧
      ¬ ∃ header, parseNsihTxt (sramArgs 65025).headerText = .ok header ∧
        Bootable (loadAddrOf header) file := by
  obtain ⟨header, hacc, -⟩ := sramArgs_accepted (n := 65025) (by decide)
  refine ⟨_, mkBl1Image_ok_iff.2 ⟨header, _, _, hacc, rfl⟩, ?_⟩
  rintro ⟨header', -, hboot⟩
  have hsmall := hboot.inSram.2
  rw [← imageFile, hacc.length_file, List.length_replicate, nsihSize, internalSramSize] at hsmall
  omega

end Gec6818Bl1.Tools

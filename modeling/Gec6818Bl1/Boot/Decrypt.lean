import Gec6818Bl1.Boot.SramGuard

/-!
# Decryption of an image

With bit 14 of `SYSRSTCONFIG` set, `SDMMCBOOT` calls `Decrypt` twice, in place: on the header in
`*pTBI`, and on the payload behind the header's copy. `Decrypt` goes over the words
`((Size + 15) & 0xFFFFFFF0) >> 2` four at a time. The AES engine itself is a parameter: a map from
its four input registers to its four output registers.

**Header.** The size passed for the header is that of `struct nx_bootheader`, twice that of the
`struct NX_SecondBootInfo` at `*pTBI`. So the call stays inside the struct iff it is not made.

**Payload.** `loadsize` has grown by the size of the header when it is passed on, and the payload
begins behind the header. So the number of blocks is not that of the payload, whatever `loadsize`
is: 64 too many, or as good as none when the sum wraps.
-/

namespace Gec6818Bl1

open ByteMem

/-! ## The engine -/

/-- `CRYPTO_AES_TIN0` to `CRYPTO_AES_TIN3`, or `CRYPTO_AES_TOUT0` to `CRYPTO_AES_TOUT3`. -/
structure AesWords where
  t0 : BitVec 32
  t1 : BitVec 32
  t2 : BitVec 32
  t3 : BitVec 32

/-- The decoder in ECB mode with the fuse key. -/
abbrev AesEngine := AesWords → AesWords

/-- `temp`, filled from the sixteen bytes back to front; the engine takes its words back to front
again. -/
def AesWords.ofBytes (bs : List Byte) : AesWords :=
  let temp k := wordAt bs.reverse (4 * k)
  ⟨temp 3, temp 2, temp 1, temp 0⟩

def AesWords.bytes (x : AesWords) : List Byte := (wordBytes [x.t3, x.t2, x.t1, x.t0]).reverse

/-- Sixteen bytes through the engine. -/
def aesBytes (aes : AesEngine) (bs : List Byte) : List Byte := (aes (.ofBytes bs)).bytes

theorem length_aesBytes (aes : AesEngine) (bs : List Byte) : (aesBytes aes bs).length = 16 := by
  rw [aesBytes, AesWords.bytes, List.length_reverse, length_wordBytes]
  rfl

theorem aesBytes_id {bs : List Byte} (h : bs.length = 16) : aesBytes id bs = bs := by
  have hrev : bs.reverse.length = 16 := by rw [List.length_reverse, h]
  have hwords : wordBytes [wordAt bs.reverse 0, wordAt bs.reverse 4, wordAt bs.reverse 8,
      wordAt bs.reverse 12] = bs.reverse := by
    have hword (off : ℕ) (h : off + 4 ≤ 16) : leBytes (wordAt bs.reverse off) ++
        bs.reverse.drop (off + 4) = bs.reverse.drop off := leBytes_wordAt_append (by omega)
    have hend : bs.reverse.drop (12 + 4) = [] := List.drop_eq_nil_of_le (by omega)
    simp only [wordBytes, List.flatMap_cons, List.flatMap_nil]
    rw [← hend, hword 12 (by decide), hword 8 (by decide), hword 4 (by decide),
      hword 0 (by decide), List.drop_zero]
  exact (congrArg List.reverse hwords).trans (List.reverse_reverse bs)

/-! ## The loop -/

/-- `DataSize >> 2`. -/
def dataWords (size : BitVec 32) : BitVec 32 := ((size + 15) &&& 0xFFFFFFF0) >>> 2

variable {w : ℕ}

/-- `Decrypt(SrcAddr, DestAddr, Size)`: `i` goes in fours up to `DataSize >> 2`. -/
def decrypt (aes : AesEngine) (srcAddr destAddr : BitVec w) (size : BitVec 32) (mem : Mem w) :
    Touched w :=
  (List.range' 0 (((dataWords size).toNat + 3) / 4) 4).foldl
    (fun t i => t.mapBlock (aesBytes aes) 16 (srcAddr + BitVec.ofNat w (4 * i))
      (destAddr + BitVec.ofNat w (4 * i))) { mem }

/-- The blocks that `Decrypt` goes over. -/
def blockCount (size : BitVec 32) : ℕ := (size + 15).toNat / 16

theorem toNat_dataWords (size : BitVec 32) : (dataWords size).toNat = 4 * blockCount size := by
  have hmask : ∀ x : BitVec 32, (x &&& 0xFFFFFFF0) >>> 2 = (x >>> 4) <<< 2 := by
    intro x
    ext i hi
    interval_cases i <;> simp
  rw [dataWords, hmask, BitVec.toNat_shiftLeft, BitVec.toNat_ushiftRight, Nat.shiftLeft_eq,
    Nat.shiftRight_eq_div_pow, blockCount]
  have := (size + 15).isLt
  omega

theorem decrypt_eq_mapBlocks (aes : AesEngine) (src dst : BitVec w) (size : BitVec 32)
    (mem : Mem w) :
    decrypt aes src dst size mem =
      Touched.mapBlocks { mem } (aesBytes aes) 16 src dst (blockCount size) := by
  have hcount : ((dataWords size).toNat + 3) / 4 = blockCount size := by
    rw [toNat_dataWords]
    omega
  have hsteps : List.range' 0 (blockCount size) 4 = (List.range (blockCount size)).map (4 * ·) := by
    refine List.ext_getElem (by simp) fun i _ _ => ?_
    simp
  have hblock (i : ℕ) : 4 * (4 * i) = 16 * i := by omega
  rw [decrypt, hcount, Touched.mapBlocks, hsteps, List.foldl_map]
  simp only [hblock]

/-- `Decrypt` in place touches its blocks and nothing else. -/
theorem span_decrypt (aes : AesEngine) (p : BitVec w) (size : BitVec 32) (mem : Mem w) :
    (decrypt aes p p size mem).span = block p (16 * blockCount size) := by
  rw [decrypt_eq_mapBlocks, Touched.span_mapBlocks _ _ _ fun bs _ => length_aesBytes aes bs,
    Touched.span_nil, Set.empty_union, Set.union_self]

/-- No more than all blocks of `size` bytes. -/
theorem mul_blocks_le (size : BitVec 32) {n : ℕ} (hn : n ≤ (size.toNat + 15) / 16) :
    16 * n ≤ 2 ^ 32 := by
  have := size.isLt
  omega

theorem blockCount_le (size : BitVec 32) : blockCount size ≤ (size.toNat + 15) / 16 := by
  rw [blockCount, BitVec.toNat_add]
  exact Nat.div_le_div_right (Nat.mod_le _ _)

/-- The stores of `Decrypt` in place: each block once, decrypted from what it held before. -/
theorem decrypt_log (hw : 2 ^ 32 ≤ 2 ^ w) (aes : AesEngine) (p : BitVec w) (size : BitVec 32)
    (mem : Mem w) :
    (decrypt aes p p size mem).log = (List.range (blockCount size)).map fun k =>
      (p + BitVec.ofNat w (16 * k), aesBytes aes (read mem (p + BitVec.ofNat w (16 * k)) 16)) := by
  rw [decrypt_eq_mapBlocks, Touched.mapBlocks_log _ _ (fun bs _ => length_aesBytes aes bs)
    ((mul_blocks_le size (blockCount_le size)).trans hw)]
  exact List.nil_append _

theorem decrypt_id_mem (p : BitVec w) (size : BitVec 32) (mem : Mem w) :
    (decrypt id p p size mem).mem = mem := by
  rw [decrypt_eq_mapBlocks, Touched.mapBlocks_mem_of_id _ _ fun bs => aesBytes_id]

/-! ## The two calls -/

variable {mode : OpMode} {σ : Type*}

/-- A call of `Decrypt`, and the memory it finds. -/
structure DecryptCall (mode : OpMode) where
  srcAddr : BitVec mode.width
  destAddr : BitVec mode.width
  size : BitVec 32
  mem : Mem mode.width

def DecryptCall.run (aes : AesEngine) (c : DecryptCall mode) : Touched mode.width :=
  decrypt aes c.srcAddr c.destAddr c.size c.mem

/-- The loader's surroundings, with this `Decrypt` for the one it calls. -/
def BootEnv.withEngine (env : BootEnv mode) (aes : AesEngine) : BootEnv mode :=
  { env with decrypt := fun src dst size mem => (Gec6818Bl1.decrypt aes src dst size mem).mem }

section Calls

variable (host : SdHost σ) (env : BootEnv mode) (s : BootState mode σ)

/-- The controller once the card is open and the FIFO is empty. -/
def openedSd : σ :=
  let (empty, sd) := host.fifoEmpty (host.sdmmcOpen s.sd).2
  if empty then sd else host.fifoReset sd

/-- The read of the header sector. -/
def readHeaderSector : Bool × List Byte × σ :=
  host.readSectors (SecondBootInfo.deviceaddr s.mem (pSBI mode) / 512) 1 (openedSd host s)

/-- The card opens, and the read of its header sector succeeds. -/
def HeaderAnswers : Prop := (host.sdmmcOpen s.sd).1 = true ∧ (readHeaderSector host s).1 = true

instance : Decidable (HeaderAnswers host s) := inferInstanceAs (Decidable (_ ∧ _))

/-- The header `Decrypt` call of `SDMMCBOOT`, if it is made. -/
def headerCall : Option (DecryptCall mode) :=
  if HeaderAnswers host s ∧ env.decrypts = true then
    some {
      srcAddr := env.pTBI
      destAddr := env.pTBI
      size := 0x400
      mem := write s.mem env.pTBI (readHeaderSector host s).2.1 }
  else none

/-- Until the signature is looked at, `readBootHeader` has read the header sector and made
`headerCall`. -/
theorem readBootHeader_of_headerCall {c : DecryptCall mode} (hc : headerCall host env s = some c) :
    readBootHeader host env s =
      let mem := env.decrypt c.srcAddr c.destAddr c.size c.mem
      (decide (SecondBootInfo.signature mem env.pTBI = headerId),
        { mem, sd := (readHeaderSector host s).2.2 }) := by
  unfold headerCall at hc
  split at hc
  · rename_i h
    obtain rfl := Option.some.inj hc
    obtain ⟨⟨hopen, hok⟩, hdec⟩ := h
    obtain ⟨sd₀, hopen⟩ : ∃ sd₀, host.sdmmcOpen s.sd = (true, sd₀) := ⟨_, Prod.ext hopen rfl⟩
    obtain ⟨bytes, sd, hsector⟩ : ∃ bytes sd, readHeaderSector host s = (true, bytes, sd) :=
      ⟨_, _, Prod.ext hok rfl⟩
    rw [hsector]
    rcases hempty : host.fifoEmpty sd₀ with ⟨empty, sd₁⟩
    simp only [readHeaderSector, openedSd, hopen, hempty] at hsector
    simp only [readBootHeader, hopen, hempty, hsector, hdec, Bool.not_true, Bool.false_eq_true,
      if_false, if_true]
    split
    · rename_i hsig
      rw [decide_eq_false hsig]
    · rename_i hsig
      rw [decide_eq_true (not_not.1 hsig)]
  · cases hc

/-- Where there is no `headerCall`, the first half of `SDMMCBOOT` does not depend on `Decrypt`. -/
theorem readBootHeader_of_no_headerCall (hc : headerCall host env s = none)
    (f : BitVec mode.width → BitVec mode.width → BitVec 32 → Mem mode.width → Mem mode.width) :
    readBootHeader host { env with decrypt := f } s = readBootHeader host env s := by
  have hno : ¬ (HeaderAnswers host s ∧ env.decrypts = true) := by
    intro h
    rw [headerCall, if_pos h] at hc
    cases hc
  cases hdec : env.decrypts with
  | false =>
    have hdec' : BootEnv.decrypts { env with decrypt := f } = false := hdec
    simp only [readBootHeader, hdec, hdec', Bool.false_eq_true, if_false]
  | true =>
    rcases hopen : host.sdmmcOpen s.sd with ⟨_ | _, sd₀⟩
    · simp only [readBootHeader, hopen, Bool.not_false, if_true]
    · rcases hempty : host.fifoEmpty sd₀ with ⟨empty, sd₁⟩
      rcases hsector : readHeaderSector host s with ⟨_ | _, bytes, sd⟩
      · simp only [readHeaderSector, openedSd, hopen, hempty] at hsector
        simp only [readBootHeader, hopen, hempty, hsector, Bool.not_true, Bool.false_eq_true,
          if_false, Bool.not_false, if_true]
      · exact absurd ⟨⟨congrArg Prod.fst hopen, congrArg Prod.fst hsector⟩, hdec⟩ hno

/-- The payload `Decrypt` call in `loadImage`. -/
def payloadDecrypt : DecryptCall mode :=
  let t := copyHeader env s.mem
  let ptbh := mptrs mode (Tbbinfo.loadaddr t.mem env.pTBI)
  let t := t.store (ptbh + BitVec.ofNat _ 0x50) (leBytes (Tbbinfo.loadsize t.mem ptbh + 0x400))
  let bytes := (host.readSectors (SecondBootInfo.deviceaddr t.mem (pSBI mode) / 512 + 1)
    ((Tbbinfo.loadsize t.mem ptbh + 512 - 1) / 512) s.sd).2.1
  let t := t.store (mptrs mode (Tbbinfo.loadaddr t.mem ptbh + 512)) bytes
  let mem := write t.mem (env.pTBI + BitVec.ofNat _ 0x4C)
    (leBytes ((Tbbinfo.startaddr t.mem ptbh).setWidth 32))
  let payload := mptrs mode (Tbbinfo.loadaddr mem ptbh + 0x400)
  { srcAddr := payload, destAddr := payload, size := Tbbinfo.loadsize mem ptbh, mem }

/-- The payload `Decrypt` call of `SDMMCBOOT`, if it is made. -/
def payloadCall : Option (DecryptCall mode) :=
  match readBootHeader host env s with
  | (false, _) => none
  | (true, s) =>
    if refused env s.mem then none
    else if env.decrypts then some (payloadDecrypt host env s) else none

end Calls

section Results

variable {host : SdHost σ} {env : BootEnv mode} {s : BootState mode σ} {aes : AesEngine}

/-! ## The header -/

/-- What the header `Decrypt` reads and stores is all in the struct at `*pTBI`. -/
def HeaderDecryptInside (aes : AesEngine) (host : SdHost σ) (env : BootEnv mode)
    (s : BootState mode σ) : Prop :=
  ∀ c, headerCall host env s = some c → (c.run aes).span ⊆ block env.pTBI 512

/-- The call goes over twice the struct. -/
theorem span_headerCall {c : DecryptCall mode} (hc : headerCall host env s = some c) :
    (c.run aes).span = block env.pTBI 0x400 := by
  unfold headerCall at hc
  split at hc
  · obtain rfl := Option.some.inj hc
    exact span_decrypt aes env.pTBI 0x400 _
  · cases hc

theorem not_block_subset_struct (p : BitVec mode.width) : ¬ block p 0x400 ⊆ block p 512 := by
  intro h
  have hw : 2 ^ 32 ≤ 2 ^ mode.width := OpMode.two_pow_le
  have hin := h (add_mem_block p (by decide : 512 < 0x400))
  rw [mem_block, offset_add_ofNat _ (by omega)] at hin
  exact absurd hin (by decide)

/-- **Header.** The header `Decrypt` stays inside the struct it is given iff it is not called. -/
theorem headerDecrypt_inside_iff (aes : AesEngine) (host : SdHost σ) (env : BootEnv mode)
    (s : BootState mode σ) :
    HeaderDecryptInside aes host (env.withEngine aes) s ↔
      (env.decrypts = true → ¬ HeaderAnswers host s) := by
  constructor
  · intro hin hdec hans
    have hcall : headerCall host (env.withEngine aes) s = some _ := if_pos ⟨hans, hdec⟩
    have hspan := hin _ hcall
    rw [span_headerCall hcall] at hspan
    exact not_block_subset_struct _ hspan
  · intro h c hc
    rw [headerCall] at hc
    split at hc
    · rename_i hcall
      exact absurd hcall.1 (h hcall.2)
    · cases hc

/-! ## The payload -/

/-- The call decrypts exactly the blocks that cover `[loadaddr + 0x400, loadaddr + 0x400 +
loadsize)`: each once, in place, from what it held before. -/
def DecryptsExactly (aes : AesEngine) (c : DecryptCall mode) (loadaddr : BitVec 64)
    (loadsize : BitVec 32) : Prop :=
  (c.run aes).log = (List.range ((loadsize.toNat + 15) / 16)).map fun k =>
    (mptrs mode (loadaddr + 0x400) + BitVec.ofNat _ (16 * k),
      aesBytes aes (read c.mem (mptrs mode (loadaddr + 0x400) + BitVec.ofNat _ (16 * k)) 16))

/-- The payload `Decrypt`, for the header that was accepted. -/
def PayloadDecrypted (aes : AesEngine) (host : SdHost σ) (env : BootEnv mode)
    (s : BootState mode σ) : Prop :=
  ∀ s₁ c, readBootHeader host env s = (true, s₁) → payloadCall host env s = some c →
    DecryptsExactly aes c (Tbbinfo.loadaddr s₁.mem env.pTBI) (Tbbinfo.loadsize s₁.mem env.pTBI)

theorem length_payload_le (hmost : host.StoresAtMost) (sector : BitVec 32) (size : BitVec 32)
    (sd : σ) :
    (host.readSectors sector ((size + 512 - 1) / 512) sd).2.1.length ≤ 2 ^ 32 - 512 := by
  have := (size + 512 - 1).isLt
  refine (hmost _ _ _).trans ?_
  rw [BitVec.toNat_udiv]
  change (size + 512 - 1).toNat / 512 * 512 ≤ _
  omega

/-- A header that is not refused is copied clear of the SRAM, unless its load address is cut. -/
theorem headerClear_of_not_refused {mem : Mem mode.width} (href : refused env mem = false)
    (haddr : (Tbbinfo.loadaddr mem env.pTBI).toNat < 2 ^ mode.width) : HeaderClear env mem := by
  have hlen : headerLength env ≤ 0x300 := by
    unfold headerLength
    split <;> decide
  refine ClearOfSram.disjoint (ClearOfSram.mono ?_ hlen)
  unfold ClearOfSram baseaddrSram
  rw [toNat_mptrs, Nat.mod_eq_of_lt haddr]
  unfold refused overlapsSram at href
  have hsize := (Tbbinfo.loadsize mem env.pTBI).isLt
  generalize Tbbinfo.loadaddr mem env.pTBI = loadaddr at *
  generalize Tbbinfo.loadsize mem env.pTBI = loadsize at *
  split
  · rename_i hlow
    have hsum : (loadaddr + 0x400 + loadsize.setWidth 64).toNat =
        loadaddr.toNat + 0x400 + loadsize.toNat := by
      rw [BitVec.toNat_add, BitVec.toNat_add, BitVec.toNat_setWidth]
      simp only [BitVec.ofNat_eq_ofNat, BitVec.toNat_ofNat]
      omega
    rw [Bool.and_eq_false_iff, decide_eq_false_iff_not, decide_eq_false_iff_not, gt_iff_lt,
      BitVec.lt_def, BitVec.lt_def, hsum] at href
    simp only [BitVec.ofNat_eq_ofNat, BitVec.toNat_ofNat] at href
    omega
  · have := loadaddr.isLt
    omega

/-- What is stored behind the header copy, and into `*pTBI`, leaves its `loadsize` and `loadaddr`
alone. -/
theorem CopyApart.patched_kept (h : CopyApart env s.mem) {bytes : List Byte}
    (hlen : bytes.length ≤ 2 ^ 32 - 512) (launch : BitVec 32) {a : BitVec mode.width}
    (ha : a ∈ block (mptrs mode (Tbbinfo.loadaddr s.mem env.pTBI)) 512) :
    write (write (patchedHeader env s.mem).mem
      (mptrs mode (Tbbinfo.loadaddr s.mem env.pTBI) + BitVec.ofNat _ 0x200) bytes)
      (env.pTBI + BitVec.ofNat _ 0x4C) (leBytes launch) a = (patchedHeader env s.mem).mem a := by
  have hw : 2 ^ 32 ≤ 2 ^ mode.width := OpMode.two_pow_le
  have hTBI : a ∉ block env.pTBI 512 :=
    Set.disjoint_left.1 h (block_mono (headerLength_ge env) ha)
  rw [write_of_not_mem _ fun hin => hTBI (block_sub env.pTBI (by rw [length_leBytes]; decide) hin),
    write_of_not_mem]
  rw [mem_block] at ha
  rw [mem_block, offset_add_of_lt (by omega) ha]
  omega

/-- The payload `Decrypt` begins behind the header, with a size that counts the header too. -/
theorem payloadDecrypt_eq (hmost : host.StoresAtMost) (h : CopyApart env s.mem) :
    ∃ mem, payloadDecrypt host env s =
      { srcAddr := mptrs mode (Tbbinfo.loadaddr s.mem env.pTBI + 0x400)
        destAddr := mptrs mode (Tbbinfo.loadaddr s.mem env.pTBI + 0x400)
        size := Tbbinfo.loadsize s.mem env.pTBI + 0x400
        mem } := by
  have hq : mptrs mode (Tbbinfo.loadaddr s.mem env.pTBI + 512) =
      mptrs mode (Tbbinfo.loadaddr s.mem env.pTBI) + BitVec.ofNat _ 0x200 := by
    rw [mptrs_add]
    exact congrArg _ (mptrs_ofNat 0x200)
  simp only [payloadDecrypt, h.copied_loadaddr, h.copied_loadsize]
  rw [← patchedHeader, patched_loadsize, h.patched_loadaddr, hq, Traced.store_mem]
  have hlen := length_payload_le hmost
    (SecondBootInfo.deviceaddr (patchedHeader env s.mem).mem (pSBI mode) / 512 + 1)
    (Tbbinfo.loadsize s.mem env.pTBI + 0x400) s.sd
  generalize (host.readSectors _ _ s.sd).2.1 = bytes at hlen ⊢
  generalize (Tbbinfo.startaddr _ _).setWidth 32 = launch
  have hkept := fun a => h.patched_kept hlen launch (a := a)
  generalize write (write _ _ _) _ _ = mem at hkept ⊢
  have haddr : Tbbinfo.loadaddr mem (mptrs mode (Tbbinfo.loadaddr s.mem env.pTBI)) =
      Tbbinfo.loadaddr s.mem env.pTBI :=
    (load64_congr fun a ha =>
      hkept a (block_sub _ (by decide : 0x58 + 8 ≤ 512) ha)).trans h.patched_loadaddr
  have hsize : Tbbinfo.loadsize mem (mptrs mode (Tbbinfo.loadaddr s.mem env.pTBI)) =
      Tbbinfo.loadsize s.mem env.pTBI + 0x400 :=
    (load32_congr fun a ha =>
      hkept a (block_sub _ (by decide : 0x50 + 4 ≤ 512) ha)).trans patched_loadsize
  exact ⟨mem, by rw [haddr, hsize]⟩

/-- The blocks that are decrypted, and those that cover the payload. -/
theorem blockCount_payload_ne (loadsize : BitVec 32) :
    blockCount (loadsize + 0x400) ≠ (loadsize.toNat + 15) / 16 := by
  have hsum : (loadsize + 0x400 + 15).toNat = (loadsize.toNat + 0x40F) % 2 ^ 32 := by
    rw [BitVec.toNat_add, BitVec.toNat_add]
    change ((loadsize.toNat + 0x400) % 2 ^ 32 + 15) % 2 ^ 32 = _
    omega
  have := loadsize.isLt
  rw [blockCount, hsum]
  omega

theorem not_decryptsExactly (aes : AesEngine) (hmost : host.StoresAtMost) (env : BootEnv mode)
    (s : BootState mode σ) (h : CopyApart env s.mem) :
    ¬ DecryptsExactly aes (payloadDecrypt host env s) (Tbbinfo.loadaddr s.mem env.pTBI)
      (Tbbinfo.loadsize s.mem env.pTBI) := by
  obtain ⟨mem, hcall⟩ := payloadDecrypt_eq hmost h
  intro hexact
  have hlen := congrArg List.length hexact
  rw [hcall, DecryptCall.run, decrypt_log OpMode.two_pow_le, List.length_map, List.length_range,
    List.length_map, List.length_range] at hlen
  exact blockCount_payload_ne _ hlen

theorem copyApart_withEngine (aes : AesEngine) {mem : Mem mode.width} :
    CopyApart (env.withEngine aes) mem ↔ CopyApart env mem := Iff.rfl

theorem refused_withEngine (aes : AesEngine) (mem : Mem mode.width) :
    refused (env.withEngine aes) mem = refused env mem := rfl

/-- **Payload.** If the header copy does not run into the sector it copies, the payload `Decrypt`
does what it is for iff it is not called. -/
theorem payloadDecrypt_exact_iff (hmost : host.StoresAtMost) (aes : AesEngine) (env : BootEnv mode)
    (s : BootState mode σ)
    (hapart : ∀ s₁, readBootHeader host (env.withEngine aes) s = (true, s₁) →
      refused env s₁.mem = false → CopyApart env s₁.mem) :
    PayloadDecrypted aes host (env.withEngine aes) s ↔
      ∀ s₁, readBootHeader host (env.withEngine aes) s = (true, s₁) →
        refused env s₁.mem = false → env.decrypts = false := by
  constructor
  · intro h s₁ hread href
    by_contra hdec
    rw [Bool.not_eq_false] at hdec
    have hcall : payloadCall host (env.withEngine aes) s =
        some (payloadDecrypt host (env.withEngine aes) s₁) := by
      have hdec' : (env.withEngine aes).decrypts = true := hdec
      simp only [payloadCall, hread, refused_withEngine, href, hdec', Bool.false_eq_true, if_false,
        if_true]
    exact not_decryptsExactly aes hmost _ s₁ (hapart s₁ hread href) (h s₁ _ hread hcall)
  · intro h s₁ c hread hcall
    cases href : refused env s₁.mem with
    | true =>
      simp only [payloadCall, hread, refused_withEngine, href, if_true] at hcall
      cases hcall
    | false =>
      have hdec' : (env.withEngine aes).decrypts = false := h s₁ hread href
      simp only [payloadCall, hread, refused_withEngine, href, hdec', Bool.false_eq_true,
        if_false] at hcall
      cases hcall

end Results

/-! ## A card that asks for decryption -/

/-- `plainEnv` with bit 14 of `SYSRSTCONFIG` set. -/
def cryptoEnv : BootEnv .aarch64 := { plainEnv with sysrstconfig := 1 <<< 14 }

theorem cryptoEnv_decrypts : (cryptoEnv.withEngine id).decrypts = true := by decide

theorem cryptoEnv_pTBI : cryptoEnv.pTBI = plainEnv.pTBI := rfl

theorem withEngine_pTBI : (cryptoEnv.withEngine id).pTBI = plainEnv.pTBI := rfl

theorem overhang_readHeaderSector :
    readHeaderSector overhangCard zeroState = (true, overhangSectors 1, ()) := by
  unfold readHeaderSector overhangCard
  with_reducible rfl

theorem overhang_headerAnswers : HeaderAnswers overhangCard zeroState :=
  ⟨rfl, congrArg Prod.fst overhang_readHeaderSector⟩

theorem overhang_headerCall :
    headerCall overhangCard (cryptoEnv.withEngine id) zeroState =
      some {
        srcAddr := plainEnv.pTBI
        destAddr := plainEnv.pTBI
        size := 0x400
        mem := overhangMem } := by
  rw [headerCall, if_pos ⟨overhang_headerAnswers, cryptoEnv_decrypts⟩, withEngine_pTBI,
    overhang_readHeaderSector, overhangMem]

/-- A card that answers has 1 KiB decrypted at `*pTBI`, on the stack. -/
theorem overhang_header_outside :
    HeaderAnswers overhangCard zeroState ∧
      ¬ HeaderDecryptInside id overhangCard (cryptoEnv.withEngine id) zeroState := by
  refine ⟨overhang_headerAnswers, fun hin => ?_⟩
  have hspan := hin _ overhang_headerCall
  rw [span_headerCall overhang_headerCall] at hspan
  exact not_block_subset_struct _ hspan

theorem overhang_readBootHeader_crypto :
    readBootHeader overhangCard (cryptoEnv.withEngine id) zeroState =
      (true, ⟨overhangMem, ()⟩) := by
  have hsig : SecondBootInfo.signature overhangMem plainEnv.pTBI = headerId := by decide +kernel
  have hmem : (cryptoEnv.withEngine id).decrypt plainEnv.pTBI plainEnv.pTBI 0x400 overhangMem =
      overhangMem := decrypt_id_mem _ _ _
  rw [readBootHeader_of_headerCall _ _ _ overhang_headerCall, overhang_readHeaderSector]
  simp only [hmem, withEngine_pTBI, hsig, decide_true]

theorem overhang_copyApart : CopyApart cryptoEnv overhangMem := by
  refine HeaderClear.apart (ClearOfSram.disjoint ?_)
  rw [cryptoEnv_pTBI, overhang_loadaddr]
  decide

theorem cryptoEnv_not_refused : refused cryptoEnv overhangMem = false := by
  rw [refused, cryptoEnv_pTBI]
  exact overhang_not_refused

/-- An image without payload has 64 blocks decrypted behind its header. -/
theorem overhang_not_decryptsExactly :
    ∃ s₁ c, readBootHeader overhangCard (cryptoEnv.withEngine id) zeroState = (true, s₁) ∧
      payloadCall overhangCard (cryptoEnv.withEngine id) zeroState = some c ∧
      ¬ DecryptsExactly id c (Tbbinfo.loadaddr s₁.mem cryptoEnv.pTBI)
        (Tbbinfo.loadsize s₁.mem cryptoEnv.pTBI) := by
  refine ⟨_, payloadDecrypt overhangCard (cryptoEnv.withEngine id) ⟨overhangMem, ()⟩,
    overhang_readBootHeader_crypto, ?_, ?_⟩
  · rw [payloadCall, overhang_readBootHeader_crypto]
    simp only [refused_withEngine, cryptoEnv_not_refused, cryptoEnv_decrypts, Bool.false_eq_true,
      if_false, if_true]
  · refine not_decryptsExactly id overhangCard_storesWhole.atMost _ _ ?_
    dsimp only
    exact (copyApart_withEngine id).2 overhang_copyApart

theorem overhang_payload_not_decrypted :
    ¬ PayloadDecrypted id overhangCard (cryptoEnv.withEngine id) zeroState := by
  intro h
  have hapart : ∀ s₁, readBootHeader overhangCard (cryptoEnv.withEngine id) zeroState =
      (true, s₁) → refused cryptoEnv s₁.mem = false → CopyApart cryptoEnv s₁.mem := by
    intro s₁ hread _
    rw [overhang_readBootHeader_crypto] at hread
    obtain rfl := (Prod.mk.inj hread).2
    dsimp only
    exact overhang_copyApart
  have hiff :=
    payloadDecrypt_exact_iff overhangCard_storesWhole.atMost id cryptoEnv zeroState hapart
  have hdec := hiff.1 h _ overhang_readBootHeader_crypto
  dsimp only at hdec
  exact absurd (hdec cryptoEnv_not_refused) (by decide)

end Gec6818Bl1

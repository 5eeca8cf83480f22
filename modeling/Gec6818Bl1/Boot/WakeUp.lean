import Gec6818Bl1.Boot.Crc
import Gec6818Bl1.Boot.Layout
import Gec6818Bl1.Lib.Polling
import Gec6818Bl1.Lib.RegTrace

/-!
# The CRC that decides about a resume

`dowakeup` of `sleep.c` jumps back into the kernel or the ATF if the CRC of a block of memory is the
one that was left for it. `__calc_crc` of `CRC32.c` takes the length of the block as an `int`,
rounds it up to words, and counts them in a `U32`.

* **The loop** reads one word after another (`crcRun_eq`), so what it reads is a matter of the count
  (`chkcnt_cases`): rounded up, it takes in bytes behind the block, and from `2 ^ 31` on the length
  is negative, and the count is more than the block has or nothing.
* **Every byte counts.** A step of the CRC forgets nothing of its word nor of the words before, so
  two memories that differ in one byte of the block have different CRCs (`calcCrc_sensitive`).

**Headline** (`covers_iff`): the CRC is one of exactly the bytes of the block if and only if the
length is a multiple of four below `2 ^ 31`.
-/

namespace Gec6818Bl1.WakeUp

open ByteMem RegTrace

abbrev U32 := BitVec 32

/-! ## The loop -/

section Loop

variable {w : ℕ}

/-- Where the loop of `__calc_crc` is, and the addresses of the words it has read. -/
structure CrcState (w : ℕ) where
  i : U32
  c : BitVec w
  crc : U32
  reads : List (BitVec w)

def crcBody (mem : Mem w) (chkcnt : U32) (s : CrcState w) : CrcState w ⊕ CrcState w :=
  if chkcnt > s.i then
    .inl ⟨s.i + 1, s.c + BitVec.ofNat w 4, igetFcs s.crc (load32 mem s.c), s.reads ++ [s.c]⟩
  else .inr s

/-- `__calc_crc`, with all it reads. -/
def crcRun (mem : Mem w) (addr : BitVec w) (len : U32) (fuel : ℕ) : Option (CrcState w) :=
  Polling.run (crcBody mem ((len + 3).sdiv 4)) fuel ⟨0, addr, 0, []⟩

/-- The words that are read, by their addresses. -/
def wordAddrs (addr : BitVec w) (n : ℕ) : List (BitVec w) :=
  (List.range n).map fun k => addr + BitVec.ofNat w (4 * k)

/-- After `k` rounds. -/
def crcAfter (mem : Mem w) (addr : BitVec w) (k : ℕ) : CrcState w where
  i := BitVec.ofNat 32 k
  c := addr + BitVec.ofNat w (4 * k)
  crc := (loadWords mem addr k).foldl igetFcs 0
  reads := wordAddrs addr k

variable {mem : Mem w} {addr : BitVec w} {len : U32}

theorem crcBody_after {chkcnt : U32} {k : ℕ} (hk : k < chkcnt.toNat) :
    crcBody mem chkcnt (crcAfter mem addr k) = .inl (crcAfter mem addr (k + 1)) := by
  have hlt : chkcnt > BitVec.ofNat 32 k := by
    change (BitVec.ofNat 32 k).toNat < chkcnt.toNat
    rw [BitVec.toNat_ofNat]
    exact (Nat.mod_le _ _).trans_lt hk
  have hwords : loadWords mem addr (k + 1) =
      loadWords mem addr k ++ [load32 mem (addr + BitVec.ofNat w (4 * k))] := loadWords_add ..
  have hreads : wordAddrs addr (k + 1) = wordAddrs addr k ++ [addr + BitVec.ofNat w (4 * k)] := by
    rw [wordAddrs, List.range_succ, List.map_append]
    rfl
  have hi : BitVec.ofNat 32 (k + 1) = BitVec.ofNat 32 k + 1 := BitVec.ofNat_add k 1
  have hc : addr + BitVec.ofNat w (4 * (k + 1)) =
      addr + BitVec.ofNat w (4 * k) + BitVec.ofNat w 4 := by
    rw [ofNat_add]
    rfl
  rw [crcBody, if_pos (show chkcnt > (crcAfter mem addr k).i from hlt)]
  simp only [crcAfter, hwords, hreads, hi, hc, List.foldl_append]
  rfl

theorem crcRun_eq (mem : Mem w) (addr : BitVec w) (len : U32) : ∃ fuel,
    crcRun mem addr len fuel = some (crcAfter mem addr ((len + 3).sdiv 4).toNat) := by
  have hreach : ∀ k ≤ ((len + 3).sdiv 4).toNat,
      Polling.reach (crcBody mem ((len + 3).sdiv 4)) k (crcAfter mem addr 0) =
        some (crcAfter mem addr k) := by
    intro k
    induction k with
    | zero => exact fun _ => rfl
    | succ k ih =>
      intro hk
      exact Polling.reach_succ (ih (Nat.le_of_succ_le hk)) (crcBody_after hk)
  have hstart : crcAfter mem addr 0 = ⟨0, addr, 0, []⟩ := by
    rw [crcAfter, Nat.mul_zero]
    simp [wordAddrs, loadWords]
  have hend : crcBody mem ((len + 3).sdiv 4) (crcAfter mem addr ((len + 3).sdiv 4).toNat) =
      .inr (crcAfter mem addr ((len + 3).sdiv 4).toNat) := by
    rw [crcBody, crcAfter, BitVec.ofNat_toNat, BitVec.setWidth_eq]
    exact if_neg (BitVec.lt_irrefl _)
  rw [hstart] at hreach
  exact ⟨_, Polling.run_eq_some_of_reach (hreach _ (Nat.le_refl _)) hend⟩

/-- A run that ends, ends there. -/
theorem eq_of_crcRun {fuel : ℕ} {s : CrcState w} (h : crcRun mem addr len fuel = some s) :
    s = crcAfter mem addr ((len + 3).sdiv 4).toNat := by
  obtain ⟨fuel', h'⟩ := crcRun_eq mem addr len
  exact Polling.run_unique h h'

end Loop

/-! ## The count -/

/-- In 31 bits the length is rounded up. A negative one becomes nothing, or more words than the
block has. -/
theorem chkcnt_cases (len : U32) :
    len.toNat + 3 < 2 ^ 31 ∧ ((len + 3).sdiv 4).toNat = (len.toNat + 3) / 4 ∨
      2 ^ 31 ≤ len.toNat + 3 ∧
        (((len + 3).sdiv 4).toNat = 0 ∨ len.toNat / 4 < ((len + 3).sdiv 4).toNat) := by
  obtain hlt | hge := Nat.lt_or_ge (len.toNat + 3) (2 ^ 31)
  · exact .inl ⟨hlt, toNat_chkcnt hlt⟩
  · refine .inr ⟨hge, ?_⟩
    have hlen := len.isLt
    have hadd : (len + 3).toNat = (len.toNat + 3) % 2 ^ 32 := BitVec.toNat_add len 3
    cases h : (len + 3).msb with
    | false =>
      have hmsb := BitVec.msb_eq_false_iff_two_mul_lt.1 h
      have hdiv : ((len + 3).sdiv 4).toNat = (len + 3).toNat / 4 := by
        rw [BitVec.sdiv_eq, h]
        exact BitVec.toNat_udiv
      omega
    | true =>
      have hmsb := BitVec.msb_eq_true_iff_two_mul_ge.1 h
      have hneg : (-(len + 3)).toNat = 2 ^ 32 - (len + 3).toNat := by
        rw [BitVec.toNat_neg]
        omega
      have hdiv : ((len + 3).sdiv 4).toNat = (2 ^ 32 - (-(len + 3)).toNat / 4) % 2 ^ 32 := by
        rw [BitVec.sdiv_eq, h]
        exact (BitVec.toNat_neg _).trans (by rw [BitVec.udiv_eq, BitVec.toNat_udiv]; rfl)
      omega

/-! ## Every byte counts -/

section Sensitive

variable {w : ℕ} {mem mem' : Mem w} {addr a p : BitVec w}

theorem igetFcs_injective_data (fcs : U32) : Function.Injective fun data => igetFcs fcs data :=
  fun _ _ h => (BitVec.xor_right_inj _).1 (shiftFcs_injective.iterate 32 h)

theorem load32_ne (ha : a ∈ block p 4) (hne : mem a ≠ mem' a) : load32 mem p ≠ load32 mem' p := by
  intro h
  have hread : read mem p 4 = read mem' p 4 := by rw [← leBytes_load32, h, leBytes_load32]
  have hbyte := List.map_inj_left.1 hread (offset p a) (List.mem_range.2 ha)
  rw [add_offset] at hbyte
  exact hne hbyte

/-- Two memories that differ in one byte of the words have different CRCs. -/
theorem foldl_loadWords_ne {n : ℕ} (hw : 4 * n ≤ 2 ^ w) (ha : a ∈ block addr (4 * n))
    (hne : mem a ≠ mem' a) (heq : ∀ b, b ≠ a → mem b = mem' b) :
    (loadWords mem addr n).foldl igetFcs 0 ≠ (loadWords mem' addr n).foldl igetFcs 0 := by
  rw [mem_block] at ha
  obtain ⟨k, hk⟩ : ∃ k, k = offset addr a / 4 := ⟨_, rfl⟩
  obtain ⟨r, rfl⟩ : ∃ r, n = k + (1 + r) := ⟨n - k - 1, by omega⟩
  have hword : a ∈ block (addr + BitVec.ofNat w (4 * k)) 4 := by
    rw [mem_block, offset_add_of_le (by omega)]
    omega
  have hbefore : loadWords mem addr k = loadWords mem' addr k := by
    refine loadWords_congr fun b hb => heq b ?_
    rintro rfl
    rw [mem_block] at hb
    omega
  have hbehind : loadWords mem (addr + BitVec.ofNat w (4 * k) + BitVec.ofNat w (4 * 1)) r =
      loadWords mem' (addr + BitVec.ofNat w (4 * k) + BitVec.ofNat w (4 * 1)) r := by
    refine loadWords_congr fun b hb => heq b ?_
    rintro rfl
    rw [ofNat_add] at hb
    exact Set.disjoint_left.1 (disjoint_block_add addr (by omega) (by omega)) hword hb
  rw [loadWords_add, loadWords_add, loadWords_add mem' addr, loadWords_add mem', hbefore, hbehind]
  simp only [List.foldl_append]
  intro h
  have hdata := igetFcs_injective_data _ (foldl_igetFcs_injective _ h)
  exact load32_ne hword hne hdata

end Sensitive

/-! ## The block and its CRC -/

section Covers

variable {w : ℕ} {addr : BitVec w} {len : U32}

/-- `__calc_crc` ends, reads only bytes of the block, and its value is one of exactly these: it is
the same in two memories that agree on them, and differs if one of them differs. -/
structure Covers (addr : BitVec w) (len : U32) : Prop where
  ends : ∀ mem, ∃ fuel s, crcRun mem addr len fuel = some s
  within : ∀ mem fuel s, crcRun mem addr len fuel = some s →
    ∀ p ∈ s.reads, block p 4 ⊆ block addr len.toNat
  agree : ∀ mem mem' fuel fuel' s s', crcRun mem addr len fuel = some s →
    crcRun mem' addr len fuel' = some s' → (∀ a ∈ block addr len.toNat, mem a = mem' a) →
    s.crc = s'.crc
  differ : ∀ mem mem' fuel fuel' s s', crcRun mem addr len fuel = some s →
    crcRun mem' addr len fuel' = some s' → ∀ a ∈ block addr len.toNat, mem a ≠ mem' a →
    (∀ b, b ≠ a → mem b = mem' b) → s.crc ≠ s'.crc

/-- No word lies beyond the block, and a block with a byte has a word. -/
theorem Covers.chkcnt (h : Covers addr len) (hw : 32 ≤ w) :
    ((len + 3).sdiv 4).toNat ≤ len.toNat / 4 ∧
      (((len + 3).sdiv 4).toNat = 0 → len.toNat = 0) := by
  have hlen : len.toNat < 2 ^ w := len.isLt.trans_le (Nat.pow_le_pow_right (by decide) hw)
  constructor
  · refine Nat.not_lt.1 fun hlt => ?_
    obtain ⟨fuel, hrun⟩ := crcRun_eq (fun _ => 0) addr len
    have hread : addr + BitVec.ofNat w (4 * (len.toNat / 4)) ∈
        wordAddrs addr ((len + 3).sdiv 4).toNat := List.mem_map_of_mem (List.mem_range.2 hlt)
    have hbyte : addr + BitVec.ofNat w len.toNat ∈
        block (addr + BitVec.ofNat w (4 * (len.toNat / 4))) 4 := by
      have hsplit : addr + BitVec.ofNat w len.toNat = addr + BitVec.ofNat w (4 * (len.toNat / 4)) +
          BitVec.ofNat w (len.toNat % 4) := by rw [ofNat_add, Nat.div_add_mod]
      rw [hsplit]
      exact add_mem_block _ (Nat.mod_lt _ (by decide))
    have hin := h.within _ _ _ hrun _ hread hbyte
    rw [mem_block, offset_add_ofNat _ hlen] at hin
    exact absurd hin (Nat.lt_irrefl _)
  · intro hzero
    by_contra hpos
    obtain ⟨fuel, hrun⟩ := crcRun_eq (fun _ => 0) addr len
    obtain ⟨fuel', hrun'⟩ := crcRun_eq (Function.update (fun _ => 0) addr 1) addr len
    refine h.differ _ _ _ _ _ _ hrun hrun' addr (self_mem_block addr (Nat.pos_of_ne_zero hpos))
      ?_ ?_ ?_
    · rw [Function.update_self]
      decide
    · intro b hb
      rw [Function.update_of_ne hb]
    · rw [crcAfter, crcAfter, hzero]
      rfl

theorem covers_of_multiple (hw : 32 ≤ w) (h4 : len.toNat % 4 = 0) (hlt : len.toNat < 2 ^ 31) :
    Covers addr len := by
  have hlen : len.toNat < 2 ^ w := len.isLt.trans_le (Nat.pow_le_pow_right (by decide) hw)
  have hcount : ((len + 3).sdiv 4).toNat = len.toNat / 4 := by
    rw [toNat_chkcnt (by omega)]
    omega
  have hblock : 4 * (len.toNat / 4) = len.toNat := by omega
  constructor
  · intro mem
    obtain ⟨fuel, hrun⟩ := crcRun_eq mem addr len
    exact ⟨fuel, _, hrun⟩
  · intro mem fuel s hrun p hp
    obtain rfl := eq_of_crcRun hrun
    obtain ⟨k, hk, rfl⟩ := List.mem_map.1 hp
    rw [List.mem_range, hcount] at hk
    exact block_sub addr (by omega)
  · intro mem mem' fuel fuel' s s' hrun hrun' hagree
    obtain rfl := eq_of_crcRun hrun
    obtain rfl := eq_of_crcRun hrun'
    rw [crcAfter, crcAfter, hcount, loadWords_congr (hblock.symm ▸ hagree)]
  · intro mem mem' fuel fuel' s s' hrun hrun' a ha hne heq
    obtain rfl := eq_of_crcRun hrun
    obtain rfl := eq_of_crcRun hrun'
    rw [crcAfter, crcAfter, hcount]
    exact foldl_loadWords_ne (by omega) (hblock.symm ▸ ha) hne heq

theorem covers_iff_multiple (hw : 32 ≤ w) :
    Covers addr len ↔ len.toNat % 4 = 0 ∧ len.toNat < 2 ^ 31 := by
  constructor
  · intro h
    obtain ⟨hle, hzero⟩ := h.chkcnt hw
    have hcases := chkcnt_cases len
    omega
  · rintro ⟨h4, hlt⟩
    exact covers_of_multiple hw h4 hlt

end Covers

/-! ## The callers -/

section Callers

inductive Reg where
  | alivePwrGateReg
  | aliveScratchReadReg
  | aliveScratchValue (i : ℕ)
  | aliveScratchRstReg
  | aliveScratchRst (i : ℕ)
deriving DecidableEq

/-- A reading is known by its register and its time. -/
abbrev Readings := Reg × ℕ → U32

abbrev History := List (Access (Reg × ℕ) Reg U32)

/-- The fields of `struct nx_tbbinfo` that `dowakeup` uses. -/
structure Header where
  loadSize : U32
  crc32 : U32
  loadAddr : BitVec 64
  startAddr : BitVec 64

def Header.read {w : ℕ} (mem : Mem w) (p : BitVec w) : Header where
  loadSize := load32 mem (p + 0x050#w)
  crc32 := load32 mem (p + 0x054#w)
  loadAddr := load64 mem (p + 0x058#w)
  startAddr := load64 mem (p + 0x060#w)

/-- A call of `__calc_crc`, by where it is made: in `CRC_Check`, and in the two branches of
`dowakeup`. -/
inductive Call (mode : OpMode) where
  | crcCheck (buf : BitVec mode.width) (size : U32)
  | kernel (physical size : U32)
  | atf (header : Header)

def atfHeaderSize : ℕ := 1024

variable {mode : OpMode}

namespace Call

def addr : Call mode → BitVec mode.width
  | crcCheck buf _ => buf
  | kernel physical _ => physical.setWidth mode.width
  | atf header => mptrs mode (header.loadAddr + BitVec.ofNat 64 atfHeaderSize)

def len : Call mode → U32
  | crcCheck _ size => size
  | kernel _ size => size
  | atf header => header.loadSize - BitVec.ofNat 32 atfHeaderSize

def crc (mem : Mem mode.width) (call : Call mode) : U32 := calcCrc mem call.addr call.len

end Call

inductive Resume (mode : OpMode) where
  | jump (entry : BitVec mode.width)
  | coldBoot

variable (rd : Readings) (mem : Mem mode.width)

def readIO32 (reg : Reg) (log : History) : U32 × History :=
  (rd (reg, log.length), log ++ [.read (reg, log.length)])

def suspendSignature : U32 := 0x50575200

def atfSuspendSignature : U32 := 0x41544600

def clearScratch : List (Op Reg U32) :=
  [.write .aliveScratchRstReg 0xFFFFFFFF, .write (.aliveScratchRst 1) 0xFFFFFFFF,
    .write (.aliveScratchRst 2) 0xFFFFFFFF, .write (.aliveScratchRst 3) 0xFFFFFFFF,
    .write (.aliveScratchRst 4) 0xFFFFFFFF]

/-- `dowakeup`, with its calls of `__calc_crc`. -/
def dowakeup (log : History) : Resume mode × List (Call mode) × History :=
  let log := exec rd Prod.mk [.write .alivePwrGateReg 1] log
  let (function, log) := readIO32 rd (.aliveScratchValue 1) log
  let (signature, log) := readIO32 rd .aliveScratchReadReg log
  let (physical, log) := readIO32 rd (.aliveScratchValue 3) log
  let (crc, log) := readIO32 rd (.aliveScratchValue 2) log
  let (size, log) := readIO32 rd (.aliveScratchValue 4) log
  let (atfSignature, log) := readIO32 rd (.aliveScratchValue 4) log
  if suspendSignature = signature &&& 0xFFFFFF00#32 then
    let log := exec rd Prod.mk clearScratch log
    let call := Call.kernel physical size
    if function ≠ 0 ∧ crc = call.crc mem then
      (.jump (function.setWidth mode.width), [call], log)
    else (.coldBoot, [call], log)
  else if atfSuspendSignature = atfSignature &&& 0xFFFFFF00#32 then
    let (header, log) := readIO32 rd (.aliveScratchValue 2) log
    let header := Header.read mem (header.setWidth mode.width)
    let call := Call.atf header
    if call.crc mem = header.crc32 then
      (.jump (mptrs mode (header.startAddr &&& 0xFFFFFFFF#64)), [call], log)
    else (.coldBoot, [call], exec rd Prod.mk [.write (.aliveScratchRst 4) 0xFFFFFFFF] log)
  else (.coldBoot, [], log)

/-- **The CRC of a block**: for every call, it is one of exactly the bytes of the block if and only
if the length is a multiple of four below `2 ^ 31`. -/
theorem covers_iff (call : Call mode) :
    Covers call.addr call.len ↔ call.len.toNat % 4 = 0 ∧ call.len.toNat < 2 ^ 31 :=
  covers_iff_multiple OpMode.le_width

/-- The registers of a kernel that has left a block, and no entry. -/
def kernelLeft (physical size : U32) : Readings
  | (.aliveScratchReadReg, _) => suspendSignature
  | (.aliveScratchValue 3, _) => physical
  | (.aliveScratchValue 4, _) => size
  | _ => 0

/-- Any length gets to `__calc_crc`. -/
theorem calls_kernelLeft (physical size : U32) (mem : Mem mode.width) :
    (dowakeup (kernelLeft physical size) mem []).2.1 = [.kernel physical size] := by
  have hsignature : suspendSignature = suspendSignature &&& 0xFFFFFF00#32 := by decide
  have heq : dowakeup (kernelLeft physical size) mem [] = _ := if_pos hsignature
  rw [heq]
  split_ifs <;> rfl

/-- The CRC of one byte takes in three more. -/
theorem not_covers : ¬∀ (rd : Readings) (mem : Mem OpMode.aarch64.width) (log : History),
    ∀ call ∈ (dowakeup rd mem log).2.1, Covers call.addr call.len := by
  intro h
  have hcovers := h (kernelLeft 0x40000000 1) (fun _ => 0) [] (.kernel 0x40000000 1)
    (by rw [calls_kernelLeft]; exact List.mem_singleton_self _)
  exact absurd ((covers_iff_multiple OpMode.le_width).1 hcovers).1 (by decide)

end Callers

end Gec6818Bl1.WakeUp

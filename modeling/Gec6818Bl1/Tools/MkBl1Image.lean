import Gec6818Bl1.Boot.Layout
import Gec6818Bl1.Lib.PyText
import Gec6818Bl1.Lib.Splice

/-!
# mk_bl1_image and set_boot_port

`mk_bl1_image.py` puts a 512-byte NSIH header in front of BL1's code, and the AArch64 stage2 behind
it. The header comes from a text file of 128 hexadecimal words; its `LOADSIZE`, its `PortNumber`
and, for aarch32, its vector words are then patched. `set_boot_port.py` patches the `PortNumber` of
an image that is already there.

What is read from files is an argument here: the text of the header file, and the two binaries.
-/

namespace Gec6818Bl1.Tools

open ByteMem PyText Splice

/-! ## Constants -/

def nsihSize : ℕ := 512
def nsihWords : ℕ := nsihSize / 4
def loadsizeOffset : ℕ := 0x044
def loadaddrOffset : ℕ := 0x048
def portNumberOffset : ℕ := 0x050
def codeOffset : ℕ := nsihSize
def bSelf : BitVec 32 := 0xEAFFFFFE
def stage2HandoffSize : ℤ := 0x10
def stage2Limit : ℤ := 0xFFFFD000

inductive Port where
  | sd
  | emmc
  deriving DecidableEq, Repr

/-- `PORTS`. -/
def Port.code : Port → Byte
  | .sd => 0x00
  | .emmc => 0x02

/-- What makes a tool exit. -/
inductive ToolError where
  /-- `--stage2 needs --stage2-addr, --stage2-end and --bl1-end`. -/
  | stage2Args
  /-- `expected 128 hex words (512 bytes), found n`. -/
  | wordCount (n : ℕ)
  /-- No `"NSIH"` at offset 0x1fc. -/
  | noSignature
  /-- `BL1 ends at ..., past the stage2 handoff words at ...`. -/
  | bl1PastHandoff (bl1End handoff : ℤ)
  /-- `stage2 ends at ..., past 0xffffd000 (stack area)`. -/
  | stage2PastLimit (stage2End : ℤ)
  /-- The `OverflowError` of `loadsize.to_bytes(4, "little")`. -/
  | loadsizeOverflow (loadsize : ℕ)
  deriving DecidableEq, Repr

/-! ## The header -/

/-- `line.split("//", 1)[0]`. -/
def beforeComment : List Char → List Char
  | '/' :: '/' :: _ => []
  | c :: cs => c :: beforeComment cs
  | [] => []

/-- The word on a line, if its first token is one. -/
def lineWord (line : List Char) : Option (BitVec 32) :=
  match split (strip (beforeComment line)) with
  | [] => none
  | token :: _ =>
    if token.length = 8 ∧ token.all isHexDigit = true then some (BitVec.ofNat 32 (ofHex token))
    else none

def parseNsihTxt (text : List Char) : Except ToolError (List Byte) :=
  let words := (lines (universalNewlines text)).filterMap lineWord
  if words.length ≠ nsihWords then .error (.wordCount words.length) else .ok (wordBytes words)

/-- `b"NSIH"`. -/
def nsihSignature : List Byte := [0x4E, 0x53, 0x49, 0x48]

/-- `data[0x1fc:0x200] == b"NSIH"`. -/
def hasSignature (data : List Byte) : Bool := (data.drop 0x1fc).take 4 == nsihSignature

/-- The ARM `B` instruction at `fromAddr` targeting `toAddr`. -/
def armBranch (fromAddr toAddr : ℤ) : BitVec 32 :=
  0xEA000000 ||| (BitVec.ofInt 32 ((toAddr - fromAddr - 8) >>> (2 : ℕ)) &&& 0x00FFFFFF)

def patchVectorForAarch32 (header : List Byte) (loadAddr : ℕ) : List Byte :=
  let entry := loadAddr + codeOffset
  (List.range' 1 15).foldl (fun header i => splice 0 header (i * 4) (leBytes bSelf))
    (splice 0 header 0 (leBytes (armBranch loadAddr entry)))

/-! ## The image -/

/-- The `--stage2` options, all given. -/
structure Stage2 where
  binary : List Byte
  addr : ℤ
  stage2End : ℤ
  bl1End : ℤ

structure ImageArgs where
  rawBin : List Byte
  port : Port
  /-- What is in `--header-from`, or in the port's reference file. -/
  headerText : List Char
  opmode : OpMode
  stage2 : Option (List Byte)
  stage2Addr : Option ℤ
  stage2End : Option ℤ
  bl1End : Option ℤ

/-- `--stage2` needs the other three; without it they are not looked at. -/
def ImageArgs.getStage2 (args : ImageArgs) : Except ToolError (Option Stage2) :=
  match args.stage2, args.stage2Addr, args.stage2End, args.bl1End with
  | none, _, _, _ => .ok none
  | some binary, some addr, some stage2End, some bl1End =>
    .ok (some { binary, addr, stage2End, bl1End })
  | some _, _, _, _ => .error .stage2Args

/-- `code.ljust(n, b"\0")`, which does nothing when `code` is long enough or `n` negative. -/
def ljust (code : List Byte) (n : ℤ) : List Byte :=
  code ++ List.replicate (n.toNat - code.length) 0

/-- What follows the header. -/
def imageCode (rawBin : List Byte) (loadAddr : ℕ) : Option Stage2 → Except ToolError (List Byte)
  | none => .ok rawBin
  | some s =>
    let handoff := s.addr - stage2HandoffSize
    if s.bl1End > handoff then .error (.bl1PastHandoff s.bl1End handoff)
    else if s.stage2End > stage2Limit then .error (.stage2PastLimit s.stage2End)
    else .ok (ljust rawBin (s.addr - (loadAddr + codeOffset)) ++ s.binary)

/-- The header as it is written. -/
def patchHeader (header : List Byte) (loadAddr loadsize : ℕ) (port : Port) (opmode : OpMode) :
    List Byte :=
  let header := splice 0 header loadsizeOffset (leBytes (BitVec.ofNat 32 loadsize))
  let header := splice 0 header portNumberOffset [port.code]
  if opmode = .aarch32 then patchVectorForAarch32 header loadAddr else header

def loadAddrOf (header : List Byte) : ℕ := (wordAt header loadaddrOffset).toNat

/-- `mk_bl1_image.py`: the file it writes. -/
def mkBl1Image (args : ImageArgs) : Except ToolError (List Byte) := do
  let stage2 ← args.getStage2
  let header ← parseNsihTxt args.headerText
  if !hasSignature header then throw .noSignature
  let loadAddr := loadAddrOf header
  let code ← imageCode args.rawBin loadAddr stage2
  let loadsize := nsihSize + code.length
  if 2 ^ 32 ≤ loadsize then throw (.loadsizeOverflow loadsize)
  return patchHeader header loadAddr loadsize args.port args.opmode ++ code

/-- `set_boot_port.py`. -/
def setBootPort (data : List Byte) (port : Port) : Except ToolError (List Byte) :=
  if data.length ≤ portNumberOffset ∨ hasSignature data = false then .error .noSignature
  else .ok (splice 0 data portNumberOffset [port.code])

/-! ## Words of a header -/

theorem length_of_parseNsihTxt {text : List Char} {header : List Byte}
    (h : parseNsihTxt text = .ok header) : header.length = nsihSize := by
  simp only [parseNsihTxt] at h
  split at h
  · cases h
  · rename_i hlen
    cases h
    rw [length_wordBytes, not_not.1 hlen]
    rfl

theorem hasSignature_iff {data : List Byte} (h : 0x200 ≤ data.length) :
    hasSignature data = true ↔ ∀ j < 4, data.getD (0x1fc + j) 0 = nsihSignature.getD j 0 := by
  have hlen : ((data.drop 0x1fc).take 4).length = nsihSignature.length := by
    rw [List.length_take, List.length_drop]
    exact Nat.min_eq_left (by omega)
  have hget : ∀ j < 4, ((data.drop 0x1fc).take 4).getD j 0 = data.getD (0x1fc + j) 0 := by
    intro j hj
    simp only [List.getD_eq_getElem?_getD, List.getElem?_take, hj, if_true, List.getElem?_drop]
  rw [hasSignature, beq_iff_eq]
  constructor
  · intro heq j hj
    rw [← hget j hj, heq]
  · intro hall
    refine ext_getD 0 hlen fun j hj => ?_
    have hj : j < 4 := lt_of_lt_of_le hj (List.length_take_le _ _)
    rw [hget j hj, hall j hj]

/-! ## The patched header -/

/-- The vector words of an aarch32 image. -/
def vectorWords (loadAddr : ℕ) : List (BitVec 32) :=
  armBranch loadAddr ((loadAddr + codeOffset : ℕ) : ℤ) :: List.replicate 15 bSelf

/-- The loop over the vectors is one store. -/
theorem patchVectorForAarch32_eq (header : List Byte) (loadAddr : ℕ) :
    patchVectorForAarch32 header loadAddr =
      splice 0 header 0 (wordBytes (vectorWords loadAddr)) := by
  have hloop : ∀ n b, (List.range' 1 n).foldl
      (fun header i => splice 0 header (i * 4) (leBytes bSelf)) (splice 0 header 0 (leBytes b)) =
        splice 0 header 0 (wordBytes (b :: List.replicate n bSelf)) := by
    intro n b
    induction n with
    | zero => rw [List.replicate_zero, wordBytes_singleton]; rfl
    | succ n ih =>
      have hend : (1 + n) * 4 = 0 + (wordBytes (b :: List.replicate n bSelf)).length := by
        rw [length_wordBytes, List.length_cons, List.length_replicate]
        omega
      rw [List.range'_1_concat, List.foldl_append, ih, List.foldl_cons, List.foldl_nil, hend,
        splice_append, List.replicate_succ', ← List.cons_append, wordBytes_append,
        wordBytes_singleton]
  rw [patchVectorForAarch32, hloop 15, vectorWords]

theorem length_patchHeader {header : List Byte} (h : header.length = nsihSize)
    (loadAddr loadsize : ℕ) (port : Port) (opmode : OpMode) :
    (patchHeader header loadAddr loadsize port opmode).length = nsihSize := by
  unfold patchHeader
  split <;>
    simp only [patchVectorForAarch32_eq, length_splice, length_wordBytes, vectorWords,
      List.length_cons, List.length_replicate, length_leBytes, h, List.length_nil] <;> rfl

/-- Every byte of the patched header. -/
theorem getD_patchHeader (header : List Byte) (loadAddr loadsize : ℕ) (port : Port)
    (opmode : OpMode) (k : ℕ) :
    (patchHeader header loadAddr loadsize port opmode).getD k 0 =
      if opmode = .aarch32 ∧ k < 64 then (wordBytes (vectorWords loadAddr)).getD k 0
      else if k = portNumberOffset then port.code
      else if loadsizeOffset ≤ k ∧ k < loadsizeOffset + 4 then
        (leBytes (BitVec.ofNat 32 loadsize)).getD (k - loadsizeOffset) 0
      else header.getD k 0 := by
  have hplain : (splice 0 (splice 0 header loadsizeOffset (leBytes (BitVec.ofNat 32 loadsize)))
      portNumberOffset [port.code]).getD k 0 =
      if k = portNumberOffset then port.code
      else if loadsizeOffset ≤ k ∧ k < loadsizeOffset + 4 then
        (leBytes (BitVec.ofNat 32 loadsize)).getD (k - loadsizeOffset) 0
      else header.getD k 0 := by
    rw [getD_splice, getD_splice, length_leBytes, List.length_singleton]
    by_cases hk : k = portNumberOffset
    · rw [if_pos (by omega), if_pos hk, hk, Nat.sub_self]
      rfl
    · rw [if_neg (by omega), if_neg hk]
  have hlen : (wordBytes (vectorWords loadAddr)).length = 64 := by
    rw [length_wordBytes, vectorWords, List.length_cons, List.length_replicate]
  unfold patchHeader
  by_cases hmode : opmode = .aarch32
  · simp only [hmode, if_true, true_and]
    rw [patchVectorForAarch32_eq, getD_splice, hlen, Nat.zero_add, hplain]
    simp only [Nat.zero_le, true_and, Nat.sub_zero]
  · simp only [hmode, if_false, false_and]
    exact hplain

/-! ## What is accepted -/

theorem bl1End_of_getStage2 {args : ImageArgs} {s : Stage2} (h : args.getStage2 = .ok (some s)) :
    args.bl1End = some s.bl1End := by
  unfold ImageArgs.getStage2 at h
  split at h
  · cases h
  · rename_i hbl1End
    cases h
    exact hbl1End
  · cases h

/-- An image that is written went through every check. -/
structure Accepted (args : ImageArgs) (header code : List Byte) (stage2 : Option Stage2) :
    Prop where
  given : args.getStage2 = .ok stage2
  parsed : parseNsihTxt args.headerText = .ok header
  signature : hasSignature header = true
  built : imageCode args.rawBin (loadAddrOf header) stage2 = .ok code
  loadsize : nsihSize + code.length < 2 ^ 32

theorem mkBl1Image_ok_iff {args : ImageArgs} {file : List Byte} :
    mkBl1Image args = .ok file ↔
      ∃ header code stage2, Accepted args header code stage2 ∧
        file = patchHeader header (loadAddrOf header) (nsihSize + code.length) args.port
          args.opmode ++ code := by
  constructor
  · intro h
    simp only [mkBl1Image, bind, Except.bind] at h
    cases hstage2 : args.getStage2 with
    | error e => simp only [hstage2] at h; cases h
    | ok stage2 =>
      cases hheader : parseNsihTxt args.headerText with
      | error e => simp only [hstage2, hheader] at h; cases h
      | ok header =>
        cases hsig : hasSignature header with
        | false => simp only [hstage2, hheader, hsig] at h; cases h
        | true =>
          cases hcode : imageCode args.rawBin (loadAddrOf header) stage2 with
          | error e => simp only [hstage2, hheader, hsig, hcode] at h; cases h
          | ok code =>
            simp only [hstage2, hheader, hsig, hcode, Bool.not_true, Bool.false_eq_true,
              if_false] at h
            split at h
            · cases h
            · rename_i hsize
              cases h
              exact ⟨header, code, stage2, ⟨hstage2, hheader, hsig, hcode, Nat.not_le.1 hsize⟩, rfl⟩
  · rintro ⟨header, code, stage2, h, rfl⟩
    simp only [mkBl1Image, bind, Except.bind, h.given, h.parsed, h.signature, h.built,
      Bool.not_true, Bool.false_eq_true, if_false, if_neg (Nat.not_le.2 h.loadsize)]
    rfl

theorem imageCode_stage2 {rawBin code : List Byte} {loadAddr : ℕ} {s : Stage2}
    (h : imageCode rawBin loadAddr (some s) = .ok code) :
    s.bl1End ≤ s.addr - 0x10 ∧ s.stage2End ≤ stage2Limit ∧
      code = ljust rawBin (s.addr - (loadAddr + codeOffset)) ++ s.binary := by
  simp only [imageCode] at h
  split at h
  · cases h
  · rename_i hend
    split at h
    · cases h
    · rename_i hlimit
      cases h
      exact ⟨not_lt.1 hend, not_lt.1 hlimit, rfl⟩

/-! ## The layout -/

/-- `insn` is a `B` that is always taken. -/
def isBranch (insn : BitVec 32) : Bool := insn >>> 24 == 0xEA

/-- Where a branch at `addr` goes. -/
def branchTarget (addr insn : BitVec 32) : BitVec 32 :=
  addr + 8 + (insn.setWidth 24).signExtend 32 <<< 2

theorem armBranch_entry (loadAddr : ℕ) :
    armBranch loadAddr ((loadAddr + codeOffset : ℕ) : ℤ) = 0xEA00007E := by
  have hoffset : ((loadAddr + codeOffset : ℕ) : ℤ) - loadAddr - 8 = 504 := by
    rw [codeOffset, nsihSize]
    omega
  rw [armBranch, hoffset]
  decide

theorem branchTarget_entry (addr : BitVec 32) : branchTarget addr 0xEA00007E = addr + 0x200 := by
  have himm : ((0xEA00007E : BitVec 32).setWidth 24).signExtend 32 <<< 2 = 0x1F8 := by decide
  rw [branchTarget, himm, BitVec.add_assoc]
  rfl

theorem branchTarget_bSelf (addr : BitVec 32) : branchTarget addr bSelf = addr := by
  have himm : (bSelf.setWidth 24).signExtend 32 <<< 2 = -8 := by decide
  rw [branchTarget, himm, BitVec.add_assoc]
  exact BitVec.add_zero addr

/-- Byte `k` of the file is the one that belongs at SRAM address `LOADADDR + k`. -/
structure ImageLayout (args : ImageArgs) (header file : List Byte) : Prop where
  loadsize : (wordAt file loadsizeOffset).toNat = file.length
  port : file.getD portNumberOffset 0 = args.port.code
  entry : args.opmode = .aarch32 → isBranch (wordAt file 0) = true ∧
    branchTarget (wordAt header loadaddrOffset) (wordAt file 0) =
      wordAt header loadaddrOffset + 0x200
  vectors : args.opmode = .aarch32 → ∀ i, 1 ≤ i → i < 16 → isBranch (wordAt file (4 * i)) = true ∧
    branchTarget (wordAt header loadaddrOffset + BitVec.ofNat 32 (4 * i)) (wordAt file (4 * i)) =
      wordAt header loadaddrOffset + BitVec.ofNat 32 (4 * i)
  /-- Every other header byte is that of the text file. -/
  kept : ∀ k < nsihSize, (args.opmode = .aarch32 → 64 ≤ k) → k ≠ portNumberOffset →
    ¬ (loadsizeOffset ≤ k ∧ k < loadsizeOffset + 4) → file.getD k 0 = header.getD k 0
  raw : ∀ k < args.rawBin.length, file.getD (codeOffset + k) 0 = args.rawBin.getD k 0
  plain : args.getStage2 = .ok none → file.length = codeOffset + args.rawBin.length
  /-- Stage2 is at its link address, up to the end of the file. Between BL1 and stage2 there are
  zeros, in the two handoff words below stage2 too. -/
  stage2 : ∀ s, args.getStage2 = .ok (some s) → ∃ off : ℕ,
    s.addr = loadAddrOf header + off ∧ codeOffset + args.rawBin.length + 0x10 ≤ off ∧
      (∀ k, codeOffset + args.rawBin.length ≤ k → k < off → file.getD k 0 = 0) ∧
      (∀ j < s.binary.length, file.getD (off + j) 0 = s.binary.getD j 0) ∧
      file.length = off + s.binary.length

/-! ## An accepted image -/

section Layout

variable {args : ImageArgs} {header code : List Byte} {stage2 : Option Stage2}

/-- The file of an accepted image. -/
def imageFile (args : ImageArgs) (header code : List Byte) : List Byte :=
  patchHeader header (loadAddrOf header) (nsihSize + code.length) args.port args.opmode ++ code

theorem Accepted.length_header (h : Accepted args header code stage2) :
    header.length = nsihSize := length_of_parseNsihTxt h.parsed

theorem Accepted.length_file (h : Accepted args header code stage2) :
    (imageFile args header code).length = nsihSize + code.length := by
  rw [imageFile, List.length_append, length_patchHeader h.length_header]

theorem Accepted.getD_header (h : Accepted args header code stage2) {k : ℕ} (hk : k < nsihSize) :
    (imageFile args header code).getD k 0 =
      (patchHeader header (loadAddrOf header) (nsihSize + code.length) args.port
        args.opmode).getD k 0 :=
  List.getD_append _ _ _ _ (by rwa [length_patchHeader h.length_header])

theorem Accepted.getD_code (h : Accepted args header code stage2) (k : ℕ) :
    (imageFile args header code).getD (codeOffset + k) 0 = code.getD k 0 := by
  have hlen := length_patchHeader h.length_header (loadAddrOf header) (nsihSize + code.length)
    args.port args.opmode
  have hoff : codeOffset + k - nsihSize = k := by
    rw [codeOffset]
    omega
  rw [imageFile, List.getD_append_right _ _ _ _ (by rw [hlen, codeOffset]; omega), hlen, hoff]

theorem getD_ljust_of_lt (rawBin : List Byte) (n : ℤ) {k : ℕ} (hk : k < rawBin.length) :
    (ljust rawBin n).getD k 0 = rawBin.getD k 0 := List.getD_append _ _ _ _ hk

theorem getD_ljust_of_le (rawBin : List Byte) (n : ℤ) {k : ℕ} (hk : rawBin.length ≤ k) :
    (ljust rawBin n).getD k 0 = 0 := by
  rw [ljust, List.getD_append_right _ _ _ _ hk, List.getD_eq_getElem?_getD]
  exact List.getElem?_getD_replicate_default_eq _ _ _

theorem length_ljust (rawBin : List Byte) (n : ℤ) :
    (ljust rawBin n).length = max rawBin.length n.toNat := by
  rw [ljust, List.length_append, List.length_replicate]
  omega

/-- The code begins with the raw binary, with and without stage2. -/
theorem Accepted.getD_raw (h : Accepted args header code stage2) {k : ℕ}
    (hk : k < args.rawBin.length) : code.getD k 0 = args.rawBin.getD k 0 := by
  cases stage2 with
  | none =>
    have hcode : args.rawBin = code := Except.ok.inj h.built
    rw [hcode]
  | some s =>
    obtain ⟨-, -, rfl⟩ := imageCode_stage2 h.built
    have hlong : k < (ljust args.rawBin (s.addr - (loadAddrOf header + codeOffset))).length := by
      rw [length_ljust]
      omega
    rw [List.getD_append _ _ _ _ hlong, getD_ljust_of_lt _ _ hk]

/-- The bytes of the vectors. -/
theorem Accepted.wordAt_vector (h : Accepted args header code stage2)
    (hmode : args.opmode = .aarch32) {i : ℕ} (hi : i < 16) :
    wordAt (imageFile args header code) (4 * i) = (vectorWords (loadAddrOf header)).getD i 0 := by
  have hlen : i < (vectorWords (loadAddrOf header)).length := by
    rwa [vectorWords, List.length_cons, List.length_replicate]
  refine Eq.trans (wordAt_congr fun j hj => ?_) (wordAt_wordBytes hlen)
  rw [h.getD_header (by rw [nsihSize]; omega), getD_patchHeader, if_pos ⟨hmode, by omega⟩]

theorem Accepted.loadsize_word (h : Accepted args header code stage2) :
    wordAt (imageFile args header code) loadsizeOffset =
      BitVec.ofNat 32 (nsihSize + code.length) := by
  apply wordAt_eq
  intro j hj
  have hvector : ¬ (args.opmode = .aarch32 ∧ loadsizeOffset + j < 64) := by
    rw [loadsizeOffset]
    omega
  have hport : loadsizeOffset + j ≠ portNumberOffset := by
    rw [loadsizeOffset, portNumberOffset]
    omega
  rw [h.getD_header (by rw [loadsizeOffset, nsihSize]; omega), getD_patchHeader,
    if_neg hvector, if_neg hport, if_pos (by omega), Nat.add_sub_cancel_left]

/-- With stage2, the raw binary ends below the handoff words. -/
theorem Accepted.stage2_layout {s : Stage2} (h : Accepted args header code (some s))
    (hraw : (args.rawBin.length : ℤ) ≤ s.bl1End - (loadAddrOf header + codeOffset)) :
    ∃ off : ℕ, s.addr = loadAddrOf header + off ∧
      codeOffset + args.rawBin.length + 0x10 ≤ off ∧
      (∀ k, codeOffset + args.rawBin.length ≤ k → k < off →
        (imageFile args header code).getD k 0 = 0) ∧
      (∀ j < s.binary.length,
        (imageFile args header code).getD (off + j) 0 = s.binary.getD j 0) ∧
      (imageFile args header code).length = off + s.binary.length := by
  obtain ⟨hend, -, hcode⟩ := imageCode_stage2 h.built
  have hlen := length_ljust args.rawBin (s.addr - (loadAddrOf header + codeOffset))
  refine ⟨(s.addr - loadAddrOf header).toNat, by omega, by omega, ?_, ?_, ?_⟩
  · intro k hge hlt
    obtain ⟨i, rfl⟩ := Nat.exists_eq_add_of_le (Nat.le_of_add_right_le hge)
    rw [h.getD_code, hcode, List.getD_append _ _ _ _ (by omega), getD_ljust_of_le _ _ (by omega)]
  · intro j hj
    have hsplit : (s.addr - loadAddrOf header).toNat + j =
        codeOffset +
          ((ljust args.rawBin (s.addr - (loadAddrOf header + codeOffset))).length + j) := by
      omega
    rw [hsplit, h.getD_code, hcode, List.getD_append_right _ _ _ _ (Nat.le_add_right _ _),
      Nat.add_sub_cancel_left]
  · rw [h.length_file, hcode, List.length_append, hlen]
    change codeOffset + _ = _
    omega

theorem Accepted.layout (h : Accepted args header code stage2)
    (hraw : ∀ s, stage2 = some s →
      (args.rawBin.length : ℤ) ≤ s.bl1End - (loadAddrOf header + codeOffset)) :
    ImageLayout args header (imageFile args header code) where
  loadsize := by
    rw [h.loadsize_word, h.length_file, BitVec.toNat_ofNat, Nat.mod_eq_of_lt h.loadsize]
  port := by
    have hvector : ¬ (args.opmode = .aarch32 ∧ portNumberOffset < 64) := by
      rw [portNumberOffset]
      omega
    rw [h.getD_header (by decide), getD_patchHeader, if_neg hvector, if_pos rfl]
  entry hmode := by
    have hword := h.wordAt_vector hmode (by decide : 0 < 16)
    rw [Nat.mul_zero, vectorWords, List.getD_cons_zero, armBranch_entry] at hword
    rw [hword]
    exact ⟨by decide, branchTarget_entry _⟩
  vectors hmode i hi hlt := by
    have hword := h.wordAt_vector hmode hlt
    obtain ⟨j, rfl⟩ := Nat.exists_eq_add_of_le' hi
    rw [vectorWords, List.getD_cons_succ, List.getD_replicate bSelf (by omega)] at hword
    rw [hword]
    exact ⟨by decide, branchTarget_bSelf _⟩
  kept k hk hvector hport hsize := by
    have hvector' : ¬ (args.opmode = .aarch32 ∧ k < 64) := fun ⟨hmode, hlt⟩ =>
      absurd (hvector hmode) (Nat.not_le.2 hlt)
    rw [h.getD_header hk, getD_patchHeader, if_neg hvector', if_neg hport, if_neg hsize]
  raw k hk := by rw [h.getD_code, h.getD_raw hk]
  plain hnone := by
    obtain rfl : none = stage2 := Except.ok.inj (hnone.symm.trans h.given)
    have hcode : args.rawBin = code := Except.ok.inj h.built
    rw [h.length_file, hcode]
    rfl
  stage2 s hsome := by
    obtain rfl : some s = stage2 := Except.ok.inj (hsome.symm.trans h.given)
    exact h.stage2_layout (hraw s rfl)

/-! ## set_boot_port -/

/-- Two header texts that differ in the `PortNumber` only, as the two reference files do. -/
def AgreeButPort (text text' : List Char) : Prop :=
  ∀ header, parseNsihTxt text = .ok header →
    ∃ header', parseNsihTxt text' = .ok header' ∧
      ∀ k, k ≠ portNumberOffset → header'.getD k 0 = header.getD k 0

theorem AgreeButPort.refl (text : List Char) : AgreeButPort text text :=
  fun header h => ⟨header, h, fun _ _ => rfl⟩

/-- The arguments with another port, and with the header text that goes with it. -/
def ImageArgs.withPort (args : ImageArgs) (port : Port) (text : List Char) : ImageArgs :=
  { args with port := port, headerText := text }

theorem Accepted.withPort (h : Accepted args header code stage2) {text : List Char}
    {header' : List Byte} (hparsed : parseNsihTxt text = .ok header')
    (hagree : ∀ k, k ≠ portNumberOffset → header'.getD k 0 = header.getD k 0) (port : Port) :
    Accepted (args.withPort port text) header' code stage2 ∧ loadAddrOf header' = loadAddrOf header
    := by
  have haddr : loadAddrOf header' = loadAddrOf header := by
    refine congrArg BitVec.toNat (wordAt_congr fun j hj => hagree _ ?_)
    rw [loadaddrOffset, portNumberOffset]
    omega
  have hlen : ∀ {text header}, parseNsihTxt text = .ok header → 0x200 ≤ header.length :=
    fun h => le_of_eq (length_of_parseNsihTxt h).symm
  refine ⟨?_, haddr⟩
  constructor
  · exact h.given
  · exact hparsed
  · rw [hasSignature_iff (hlen hparsed)]
    intro j hj
    rw [hagree _ (by rw [portNumberOffset]; omega)]
    exact (hasSignature_iff (hlen h.parsed)).1 h.signature j hj
  · rw [haddr]
    exact h.built
  · exact h.loadsize

theorem Accepted.hasSignature_file (h : Accepted args header code stage2) :
    hasSignature (imageFile args header code) = true := by
  have hlen : 0x200 ≤ (imageFile args header code).length := by
    rw [h.length_file, nsihSize]
    omega
  rw [hasSignature_iff hlen]
  intro j hj
  have hvector : ¬ (args.opmode = .aarch32 ∧ 0x1fc + j < 64) := by omega
  have hport : 0x1fc + j ≠ portNumberOffset := by
    rw [portNumberOffset]
    omega
  have hsize : ¬ (loadsizeOffset ≤ 0x1fc + j ∧ 0x1fc + j < loadsizeOffset + 4) := by
    rw [loadsizeOffset]
    omega
  rw [h.getD_header (by rw [nsihSize]; omega), getD_patchHeader, if_neg hvector, if_neg hport,
    if_neg hsize]
  exact (hasSignature_iff (le_of_eq h.length_header.symm)).1 h.signature j hj

/-- Patching the port of the file is the same as building it for that port. -/
theorem Accepted.setBootPort_eq (h : Accepted args header code stage2) {text : List Char}
    (hagree : AgreeButPort args.headerText text) (port : Port) :
    setBootPort (imageFile args header code) port = mkBl1Image (args.withPort port text) := by
  obtain ⟨header', hparsed, hsame⟩ := hagree header h.parsed
  obtain ⟨h', haddr⟩ := h.withPort hparsed hsame port
  have hlong : ¬ ((imageFile args header code).length ≤ portNumberOffset ∨
      hasSignature (imageFile args header code) = false) := by
    rintro (hshort | hsig)
    · rw [h.length_file, nsihSize, portNumberOffset] at hshort
      omega
    · rw [h.hasSignature_file] at hsig
      cases hsig
  rw [setBootPort, if_neg hlong, mkBl1Image_ok_iff.2 ⟨header', code, stage2, h', rfl⟩,
    ← imageFile]
  congr 1
  have hport : portNumberOffset + [port.code].length ≤ (imageFile args header code).length := by
    rw [h.length_file, nsihSize, portNumberOffset, List.length_singleton]
    omega
  refine ext_getD 0 ?_ fun k _ => ?_
  · rw [length_splice_of_le 0 hport, h.length_file, h'.length_file]
  · rcases Nat.lt_or_ge k nsihSize with hlt | hge
    · rw [h'.getD_header hlt, getD_patchHeader, haddr]
      by_cases hk : k = portNumberOffset
      · have hvector : ¬ ((args.withPort port text).opmode = .aarch32 ∧ k < 64) := by
          rw [hk, portNumberOffset]
          omega
        rw [if_neg hvector, if_pos hk, hk, getD_splice,
          if_pos ⟨le_refl _, Nat.lt_succ_self _⟩, Nat.sub_self]
        rfl
      · rw [getD_splice_of_not (by rw [List.length_singleton]; omega), h.getD_header hlt,
          getD_patchHeader, if_neg hk, if_neg hk, hsame k hk]
        rfl
    · obtain ⟨i, rfl⟩ := Nat.exists_eq_add_of_le hge
      have hout : ¬ (portNumberOffset ≤ nsihSize + i ∧
          nsihSize + i < portNumberOffset + [port.code].length) := by
        rw [nsihSize, portNumberOffset, List.length_singleton]
        omega
      rw [getD_splice_of_not hout]
      exact (h.getD_code i).trans (h'.getD_code i).symm

/-- **Layout.** If the raw binary ends at or before `bl1_end`, the file that is written is the
image as it is laid out in the SRAM, and setting its port is the same as building it for that
port. -/
theorem mkBl1Image_layout {args : ImageArgs} {file : List Byte} (h : mkBl1Image args = .ok file)
    (hend : ∀ header bl1End, parseNsihTxt args.headerText = .ok header → args.bl1End = some bl1End →
      (args.rawBin.length : ℤ) ≤ bl1End - (loadAddrOf header + codeOffset)) :
    (∃ header, parseNsihTxt args.headerText = .ok header ∧ ImageLayout args header file) ∧
      ∀ port text, AgreeButPort args.headerText text →
        setBootPort file port = mkBl1Image (args.withPort port text) := by
  obtain ⟨header, code, stage2, hacc, rfl⟩ := mkBl1Image_ok_iff.1 h
  refine ⟨⟨header, hacc.parsed, hacc.layout ?_⟩, fun port text hagree => ?_⟩
  · rintro s rfl
    exact hend header s.bl1End hacc.parsed (bl1End_of_getStage2 hacc.given)
  · exact hacc.setBootPort_eq hagree port

end Layout

/-! ## A small image -/

/-- A header of zeros and the signature, one word a line. -/
def smallText : List Char :=
  (List.replicate 127 "00000000\n".toList).flatten ++ "4849534E // NSIH\n".toList

/-- Three bytes of BL1 at 0x200, up to 0x210, and one of stage2 at 0x220. -/
def smallArgs : ImageArgs where
  rawBin := [1, 2, 3]
  port := .sd
  headerText := smallText
  opmode := .aarch32
  stage2 := some [0xAA]
  stage2Addr := some 0x220
  stage2End := some 0x230
  bl1End := some 0x210

theorem smallText_loadAddr {header : List Byte} (h : parseNsihTxt smallText = .ok header) :
    loadAddrOf header = 0 := by
  have hload : (parseNsihTxt smallText).map loadAddrOf = .ok 0 := by decide +kernel
  rw [h] at hload
  exact Except.ok.inj hload

theorem smallArgs_accepted : ∃ file, mkBl1Image smallArgs = .ok file := by
  have hok : (mkBl1Image smallArgs).isOk = true := by decide +kernel
  cases hfile : mkBl1Image smallArgs with
  | error e =>
    rw [hfile] at hok
    cases hok
  | ok file => exact ⟨file, rfl⟩

theorem smallArgs_layout :
    ∃ file, mkBl1Image smallArgs = .ok file ∧
      (∃ header, parseNsihTxt smallArgs.headerText = .ok header ∧
        ImageLayout smallArgs header file) ∧
      ∀ port text, AgreeButPort smallArgs.headerText text →
        setBootPort file port = mkBl1Image (smallArgs.withPort port text) := by
  obtain ⟨file, hfile⟩ := smallArgs_accepted
  refine ⟨file, hfile, mkBl1Image_layout hfile ?_⟩
  intro header bl1End hparsed hend
  have htext : smallArgs.headerText = smallText := by rw [smallArgs]
  rw [htext] at hparsed
  rw [smallText_loadAddr hparsed]
  obtain rfl : 0x210 = bl1End := Option.some.inj hend
  decide

end Gec6818Bl1.Tools

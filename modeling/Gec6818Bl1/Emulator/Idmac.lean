import Gec6818Bl1.Emulator.Dwmmc
import Mathlib.Algebra.Order.BigOperators.Group.List

/-!
# The chain of DMA descriptors

`DWMMC.idmac` of `s5p6818_emu.py` walks a chain of descriptors: each has a part of the data stored
in its buffer and its `OWN` bit cleared, and the last one is marked. The walk gives up after 4096
descriptors, and the data-done interrupt is raised however it ends.

What a chain is for is `scatter`: the data goes to the buffers in their order, each taking as much
as it holds. The walk clears `OWN` bits between the stores, and reads descriptors from the memory it
writes to; in a chain that is `WellFormed` neither gets in the way (`consume_consumed`).

**IDMAC.** When the interrupt is raised, all of the data has been placed, the descriptors that were
used have been given back, and nothing else has changed, iff the first 4096 descriptors hold the
data (`completes_iff`).
-/

namespace Gec6818Bl1.Emulator.Idmac

open ByteMem

/-! ## Stores -/

section Stores

variable {ram ram' : ℕ → Byte} {addr a : ℕ} {data : List Byte}

/-- `data` from `addr` on. -/
def put (ram : ℕ → Byte) (addr : ℕ) (data : List Byte) : ℕ → Byte :=
  fun a => if addr ≤ a then data.getD (a - addr) (ram a) else ram a

theorem memWrite_eq_put (h : InRam addr data.length) :
    memWrite ram addr data = some (put ram addr data) := if_pos h

theorem put_of_not_mem (h : addr ≤ a → addr + data.length ≤ a) : put ram addr data a = ram a := by
  unfold put
  split_ifs with hle
  · exact List.getD_eq_default _ _ (by have := h hle; omega)
  · rfl

theorem put_congr (h : ram a = ram' a) : put ram addr data a = put ram' addr data a := by
  rw [put, put, h]

theorem InRam.mono {length length' : ℕ} (h : InRam addr length) (hle : length' ≤ length) :
    InRam addr length' := by
  unfold InRam at *
  omega

end Stores

/-! ## Descriptors -/

/-- A descriptor and where it lies. -/
structure Descriptor where
  addr : ℕ
  flags : ℕ
  size : ℕ
  buf : ℕ
  nxt : ℕ

namespace Descriptor

def own (d : Descriptor) : Bool := d.flags.testBit 31

def last (d : Descriptor) : Bool := d.flags.testBit 2

/-- The bytes that its buffer holds. -/
def n (d : Descriptor) : ℕ := d.size &&& 0x1FFF

def next (d : Descriptor) : ℕ := if d.flags.testBit 4 then d.nxt else d.addr + 16

/-- The addresses of the descriptor. -/
def Holds (d : Descriptor) (a : ℕ) : Prop := d.addr ≤ a ∧ a < d.addr + 16

/-- The addresses of its buffer. -/
def Buffer (d : Descriptor) (a : ℕ) : Prop := d.buf ≤ a ∧ a < d.buf + d.n

end Descriptor

def bytes16 (ram : ℕ → Byte) (addr : ℕ) : List Byte := (List.range 16).map fun i => ram (addr + i)

def load (ram : ℕ → Byte) (addr : ℕ) : Descriptor where
  addr := addr
  flags := (wordAt (bytes16 ram addr) 0).toNat
  size := (wordAt (bytes16 ram addr) 4).toNat
  buf := (wordAt (bytes16 ram addr) 8).toNat
  nxt := (wordAt (bytes16 ram addr) 12).toNat

/-- A chain from `addr` on: every descriptor belongs to the controller, and only the last one is
marked as that. -/
inductive Chain (ram : ℕ → Byte) : ℕ → List Descriptor → Prop
  | last {addr : ℕ} (own : (load ram addr).own = true) (last : (load ram addr).last = true) :
      Chain ram addr [load ram addr]
  | link {addr : ℕ} {ds : List Descriptor} (own : (load ram addr).own = true)
      (last : (load ram addr).last = false) (rest : Chain ram (load ram addr).next ds) :
      Chain ram addr (load ram addr :: ds)

/-- Descriptors and buffers are in RAM, and no descriptor overlaps another one or a buffer. -/
structure Laid (ds : List Descriptor) : Prop where
  inRam : ∀ d ∈ ds, InRam d.addr 16
  buffer_inRam : ∀ d ∈ ds, InRam d.buf d.n
  apart : ds.Pairwise fun d e => ∀ a, d.Holds a → ¬ e.Holds a
  clear : ∀ d ∈ ds, ∀ e ∈ ds, ∀ a, d.Holds a → ¬ e.Buffer a

/-- The bytes that the buffers hold. -/
def total (ds : List Descriptor) : ℕ := (ds.map Descriptor.n).sum

structure WellFormed (ram : ℕ → Byte) (addr : ℕ) (data : List Byte) (ds : List Descriptor) :
    Prop where
  chain : Chain ram addr ds
  laid : Laid ds
  enough : data.length ≤ total ds

/-! ## What a chain is for -/

/-- The data to the buffers, in their order. -/
def scatter : List Byte → List Descriptor → (ℕ → Byte) → ℕ → Byte
  | _, [], ram => ram
  | data, d :: ds, ram => scatter (data.drop d.n) ds (put ram d.buf (data.take d.n))

/-- From `ram` to `ram'` the descriptors `ds` have been used, and nothing else has changed. -/
structure Consumed (data : List Byte) (ds : List Descriptor) (ram ram' : ℕ → Byte) : Prop where
  own : ∀ d ∈ ds, ram' (d.addr + 3) = ram (d.addr + 3) &&& 0x7F
  rest : ∀ a, (∀ d ∈ ds, a ≠ d.addr + 3) → ram' a = scatter data ds ram a

theorem scatter_congr {data : List Byte} {ds : List Descriptor} {ram ram' : ℕ → Byte} {a : ℕ}
    (h : ram a = ram' a) : scatter data ds ram a = scatter data ds ram' a := by
  induction ds generalizing data ram ram' with
  | nil => exact h
  | cons d ds ih => exact ih (put_congr h)

/-- Bytes behind a buffer that is not full stay as they are. -/
theorem put_take_of_not_mem {ram : ℕ → Byte} {d : Descriptor} {a : ℕ} (data : List Byte)
    (h : ¬ d.Buffer a) : put ram d.buf (data.take d.n) a = ram a := by
  refine put_of_not_mem fun hle => ?_
  have hlen := List.length_take_le d.n data
  have hlt : d.buf + d.n ≤ a := by
    by_contra hlt
    exact h ⟨hle, Nat.lt_of_not_le hlt⟩
  omega

theorem scatter_of_not_mem {data : List Byte} {ds : List Descriptor} {ram : ℕ → Byte} {a : ℕ}
    (h : ∀ d ∈ ds, ¬ d.Buffer a) : scatter data ds ram a = ram a := by
  induction ds generalizing data ram with
  | nil => rfl
  | cons d ds ih =>
    obtain ⟨hd, hds⟩ := List.forall_mem_cons.1 h
    rw [scatter, ih hds, put_take_of_not_mem data hd]

/-! ## The walk -/

/-- `OWN` is bit 7 of the fourth byte. -/
def clearOwn (ram : ℕ → Byte) (d : Descriptor) : ℕ → Byte :=
  Function.update ram (d.addr + 3) (ram (d.addr + 3) &&& 0x7F)

/-- What the walk makes of the memory. -/
def consume : List Byte → List Descriptor → (ℕ → Byte) → ℕ → Byte
  | _, [], ram => ram
  | data, d :: ds, ram =>
    consume (data.drop d.n) ds (clearOwn (put ram d.buf (data.take d.n)) d)

theorem clearOwn_of_ne {ram : ℕ → Byte} {d : Descriptor} {a : ℕ} (h : a ≠ d.addr + 3) :
    clearOwn ram d a = ram a := Function.update_of_ne h _ _

theorem Descriptor.holds_own (d : Descriptor) : d.Holds (d.addr + 3) := ⟨by omega, by omega⟩

theorem Laid.tail {d : Descriptor} {ds : List Descriptor} (h : Laid (d :: ds)) : Laid ds where
  inRam e he := h.inRam e (List.mem_cons_of_mem d he)
  buffer_inRam e he := h.buffer_inRam e (List.mem_cons_of_mem d he)
  apart := (List.pairwise_cons.1 h.apart).2
  clear e he e' he' := h.clear e (List.mem_cons_of_mem d he) e' (List.mem_cons_of_mem d he')

theorem Laid.take {ds : List Descriptor} (h : Laid ds) (k : ℕ) : Laid (ds.take k) where
  inRam d hd := h.inRam d (List.mem_of_mem_take hd)
  buffer_inRam d hd := h.buffer_inRam d (List.mem_of_mem_take hd)
  apart := h.apart.sublist (List.take_sublist k ds)
  clear d hd e he := h.clear d (List.mem_of_mem_take hd) e (List.mem_of_mem_take he)

/-- The `OWN` bytes of different descriptors differ. -/
theorem Laid.own_ne {d : Descriptor} {ds : List Descriptor} (h : Laid (d :: ds)) {e : Descriptor}
    (he : e ∈ ds) : e.addr + 3 ≠ d.addr + 3 := by
  intro heq
  have hapart := (List.pairwise_cons.1 h.apart).1 e he (d.addr + 3) d.holds_own
  exact hapart (heq ▸ e.holds_own)

/-- One descriptor changes its `OWN` byte and its buffer only. -/
theorem consume_head_of_ne {ram : ℕ → Byte} {d : Descriptor} {a : ℕ} (data : List Byte)
    (hown : a ≠ d.addr + 3) (hbuffer : ¬ d.Buffer a) :
    clearOwn (put ram d.buf (data.take d.n)) d a = ram a := by
  rw [clearOwn_of_ne hown, put_take_of_not_mem data hbuffer]

/-- The order of the stores does not matter. -/
theorem consume_consumed {ds : List Descriptor} (h : Laid ds) (data : List Byte) (ram : ℕ → Byte) :
    Consumed data ds ram (consume data ds ram) := by
  induction ds generalizing data ram with
  | nil => exact ⟨fun d hd => absurd hd List.not_mem_nil, fun a _ => rfl⟩
  | cons d ds ih =>
    have hrest := ih h.tail (data.drop d.n) (clearOwn (put ram d.buf (data.take d.n)) d)
    refine ⟨fun e he => ?_, fun a ha => ?_⟩
    · have hbuffer (e' : Descriptor) (he' : e' ∈ d :: ds) : ¬ e'.Buffer (e.addr + 3) :=
        h.clear e he e' he' _ e.holds_own
      rcases List.mem_cons.1 he with rfl | hmem
      · have hne : ∀ e' ∈ ds, e.addr + 3 ≠ e'.addr + 3 := fun e' he' => (h.own_ne he').symm
        rw [consume, hrest.rest _ hne,
          scatter_of_not_mem fun e' he' => hbuffer e' (List.mem_cons_of_mem e he'), clearOwn,
          Function.update_self, put_take_of_not_mem data (hbuffer e List.mem_cons_self)]
      · rw [consume, hrest.own e hmem,
          consume_head_of_ne data (h.own_ne hmem) (hbuffer d List.mem_cons_self)]
    · obtain ⟨hd, hds⟩ := List.forall_mem_cons.1 ha
      rw [consume, hrest.rest a hds, scatter, scatter_congr (clearOwn_of_ne hd)]

/-! ## One step -/

theorem ofNat_ldiff (w : BitVec 32) :
    BitVec.ofNat 32 (w.toNat.ldiff (1 <<< 31)) = w &&& 0x7FFFFFFF := by
  have hmask : ∀ i < 32, (!(1 <<< 31).testBit i) = (0x7FFFFFFF : BitVec 32).getLsbD i := by decide
  refine BitVec.eq_of_getLsbD_eq fun i hi => ?_
  rw [BitVec.getLsbD_ofNat, BitVec.getLsbD_and, Nat.testBit_ldiff, BitVec.testBit_toNat,
    hmask i hi, decide_eq_true hi, Bool.true_and]

theorem leWord_and (b0 b1 b2 b3 : Byte) :
    leWord b0 b1 b2 b3 &&& 0x7FFFFFFF = leWord b0 b1 b2 (b3 &&& 0x7F) := by
  have hmask : (0x7FFFFFFF : BitVec 32) =
      leWord (BitVec.allOnes 8) (BitVec.allOnes 8) (BitVec.allOnes 8) 0x7F := by decide
  rw [hmask, leWord, leWord, BitVec.and_append, BitVec.and_append, BitVec.and_append,
    BitVec.and_allOnes, BitVec.and_allOnes, BitVec.and_allOnes, leWord]

theorem getD_bytes16 (ram : ℕ → Byte) (addr : ℕ) {i : ℕ} (h : i < 16) :
    (bytes16 ram addr).getD i 0 = ram (addr + i) := by
  rw [bytes16, List.getD_eq_getElem _ _ (by simpa using h)]
  simp

/-- The store of `flags & ~(1 << 31)`. -/
theorem put_ldiff (ram : ℕ → Byte) (d : Descriptor)
    (h : d.flags = (wordAt (bytes16 ram d.addr) 0).toNat) :
    put ram d.addr (leBytes (BitVec.ofNat 32 (d.flags.ldiff (1 <<< 31)))) = clearOwn ram d := by
  have hbytes : leBytes (BitVec.ofNat 32 (d.flags.ldiff (1 <<< 31))) =
      [ram d.addr, ram (d.addr + 1), ram (d.addr + 2), ram (d.addr + 3) &&& 0x7F] := by
    rw [h, ofNat_ldiff, wordAt, leWord_and, leBytes_leWord, getD_bytes16 ram _ (by decide),
      getD_bytes16 ram _ (by decide), getD_bytes16 ram _ (by decide),
      getD_bytes16 ram _ (by decide)]
    rfl
  funext a
  rw [hbytes]
  by_cases ha : d.addr ≤ a ∧ a < d.addr + 4
  · obtain ⟨j, rfl⟩ := Nat.exists_eq_add_of_le ha.1
    have hj : j = 0 ∨ j = 1 ∨ j = 2 ∨ j = 3 := by omega
    rcases hj with rfl | rfl | rfl | rfl <;> simp [put, clearOwn]
  · rw [put_of_not_mem (by intro hle; simp only [List.length_cons, List.length_nil]; omega),
      clearOwn_of_ne (by omega)]

/-- What a descriptor says depends on its own bytes only. -/
theorem bytes16_congr {ram ram' : ℕ → Byte} {addr : ℕ}
    (h : ∀ a, addr ≤ a → a < addr + 16 → ram a = ram' a) : bytes16 ram addr = bytes16 ram' addr :=
  List.map_congr_left fun i hi => h _ (by omega) (by have := List.mem_range.1 hi; omega)

theorem load_congr {ram ram' : ℕ → Byte} {addr : ℕ}
    (h : ∀ a, addr ≤ a → a < addr + 16 → ram a = ram' a) : load ram addr = load ram' addr := by
  rw [load, bytes16_congr h, ← load]

theorem idmacLoop_step {ram : ℕ → Byte} {addr : ℕ} {ds : List Descriptor} (data : List Byte)
    (k pos : ℕ) (hlaid : Laid (load ram addr :: ds)) (hown : (load ram addr).own = true) :
    Dwmmc.idmacLoop data (k + 1) addr pos ram =
      let d := load ram addr
      let ram' := clearOwn (put ram d.buf ((data.drop pos).take d.n)) d
      if d.last then some ram' else Dwmmc.idmacLoop data k d.next (pos + d.n) ram' := by
  have hmem : load ram addr ∈ load ram addr :: ds := List.mem_cons_self
  have hin : InRam addr 16 := hlaid.inRam _ hmem
  have hread : memRead ram addr 16 = some (bytes16 ram addr) := if_pos hin
  have hdata : memWrite ram (load ram addr).buf ((data.drop pos).take (load ram addr).n) =
      some (put ram (load ram addr).buf ((data.drop pos).take (load ram addr).n)) :=
    memWrite_eq_put (InRam.mono (hlaid.buffer_inRam _ hmem) (List.length_take_le _ _))
  have hflags (ram' : ℕ → Byte) : memWrite ram' addr
        (leBytes (BitVec.ofNat 32 ((load ram addr).flags.ldiff (1 <<< 31)))) =
      some (put ram' addr (leBytes (BitVec.ofNat 32 ((load ram addr).flags.ldiff (1 <<< 31))))) :=
    memWrite_eq_put (InRam.mono hin (by rw [length_leBytes]; omega))
  have hbytes : bytes16 (put ram (load ram addr).buf ((data.drop pos).take (load ram addr).n))
      addr = bytes16 ram addr :=
    bytes16_congr fun a hle hlt =>
      put_take_of_not_mem _ (hlaid.clear _ hmem _ hmem a ⟨hle, hlt⟩)
  have hput := put_ldiff _ (load ram addr) (congrArg (fun bs => (wordAt bs 0).toNat) hbytes.symm)
  have hown' : (!(load ram addr).flags.testBit 31) = false := by
    rw [Bool.not_eq_false']
    exact hown
  rw [Dwmmc.idmacLoop, hread]
  show (if (!(load ram addr).flags.testBit 31) = true then _ else _) = _
  rw [hown', if_neg Bool.false_ne_true]
  show (memWrite ram (load ram addr).buf ((data.drop pos).take (load ram addr).n)).bind _ = _
  rw [hdata]
  show (memWrite _ addr (leBytes (BitVec.ofNat 32
    ((load ram addr).flags.ldiff (1 <<< 31))))).bind _ = _
  rw [hflags]
  show (if (load ram addr).last = true then some (put _ (load ram addr).addr _)
    else Dwmmc.idmacLoop data k (load ram addr).next _ (put _ (load ram addr).addr _)) = _
  rw [hput]
  rfl

/-! ## The whole chain -/

/-- The descriptors read the same in both memories. -/
def Agree (ds : List Descriptor) (ram ram' : ℕ → Byte) : Prop :=
  ∀ d ∈ ds, ∀ a, d.Holds a → ram a = ram' a

theorem Agree.load {ram ram' : ℕ → Byte} {addr : ℕ} {ds : List Descriptor}
    (h : Agree (load ram' addr :: ds) ram ram') : load ram addr = load ram' addr :=
  load_congr fun a hle hlt => h _ List.mem_cons_self a ⟨hle, hlt⟩

/-- A step changes nothing that the rest of the chain is read from. -/
theorem Agree.step {ram ram' : ℕ → Byte} {d : Descriptor} {ds : List Descriptor}
    (h : Agree (d :: ds) ram ram') (hlaid : Laid (d :: ds)) (data : List Byte) :
    Agree ds (clearOwn (put ram d.buf (data.take d.n)) d) ram' := by
  intro e he a ha
  have hown : a ≠ d.addr + 3 := by
    intro heq
    exact (List.pairwise_cons.1 hlaid.apart).1 e he a (heq ▸ d.holds_own) ha
  have hbuffer := hlaid.clear e (List.mem_cons_of_mem d he) d List.mem_cons_self a ha
  rw [consume_head_of_ne data hown hbuffer, h e (List.mem_cons_of_mem d he) a ha]

/-- The limit cuts the chain off. -/
theorem idmacLoop_chain {ram₀ : ℕ → Byte} {addr : ℕ} {ds : List Descriptor}
    (hchain : Chain ram₀ addr ds) (hlaid : Laid ds) (data : List Byte) (k pos : ℕ)
    {ram : ℕ → Byte} (hagree : Agree ds ram ram₀) :
    Dwmmc.idmacLoop data k addr pos ram = some (consume (data.drop pos) (ds.take k) ram) := by
  induction hchain generalizing k pos ram with
  | @last addr own last =>
    cases k with
    | zero => rfl
    | succ k =>
      rw [← hagree.load] at own last hlaid ⊢
      rw [idmacLoop_step data k pos hlaid own]
      simp only [last, if_true, List.take_succ_cons, List.take_nil, consume]
  | @link addr ds own last rest ih =>
    cases k with
    | zero => rfl
    | succ k =>
      have hload := hagree.load
      rw [← hload] at own last hlaid hagree ih ⊢
      rw [idmacLoop_step data k pos hlaid own]
      simp only [last, if_false, Bool.false_eq_true, List.take_succ_cons, consume]
      rw [ih hlaid.tail k _ (hagree.step hlaid _), List.drop_drop]

/-- `idmac` on a chain. -/
theorem idmac_eq {s : Dwmmc} {data : List Byte} {ds : List Descriptor}
    (h : WellFormed s.ram ((s.regs Dwmmc.rDbaddr).getD 0) data ds) :
    s.idmac data = some { s with
      ram := consume data (ds.take 4096) s.ram
      rintsts := s.rintsts ||| Dwmmc.DTO
      regs := Function.update s.regs Dwmmc.rIdsts
        (some ((s.regs Dwmmc.rIdsts).getD 0 ||| 0x102)) } := by
  rw [Dwmmc.idmac, idmacLoop_chain h.chain h.laid data 4096 0 fun _ _ _ _ => rfl, List.drop_zero]
  rfl

/-! ## What has been used -/

theorem load_own (ram : ℕ → Byte) (addr : ℕ) :
    (load ram addr).own = (ram (addr + 3)).getLsbD 7 := by
  have hbyte (b0 b1 b2 b3 : Byte) : (leWord b0 b1 b2 b3).getLsbD 31 = b3.getLsbD 7 := by
    rw [leWord, BitVec.getLsbD_append, BitVec.getLsbD_append, BitVec.getLsbD_append]
    rfl
  rw [Descriptor.own, load, BitVec.testBit_toNat, wordAt, hbyte, getD_bytes16 ram addr (by decide)]

theorem Chain.own_set {ram : ℕ → Byte} {addr : ℕ} {ds : List Descriptor} (h : Chain ram addr ds)
    {d : Descriptor} (hd : d ∈ ds) : (ram (d.addr + 3)).getLsbD 7 = true := by
  induction h with
  | @last addr own last =>
    obtain rfl := List.mem_singleton.1 hd
    rw [← own, load_own]
    rfl
  | @link addr ds own last rest ih =>
    rcases List.mem_cons.1 hd with rfl | hmem
    · rw [← own, load_own]
      rfl
    · exact ih hmem

section Consumed

variable {data : List Byte} {ds : List Descriptor} {ram ram' : ℕ → Byte}

theorem Consumed.own_clear (h : Consumed data ds ram ram') {d : Descriptor} (hd : d ∈ ds) :
    (ram' (d.addr + 3)).getLsbD 7 = false := by
  rw [h.own d hd, BitVec.getLsbD_and]
  exact Bool.and_false _

/-- The descriptors that are not used keep their `OWN` bytes. -/
theorem Consumed.own_eq {m : ℕ} (h : Consumed data (ds.take m) ram ram') (hlaid : Laid ds)
    {d : Descriptor} (hd : d ∈ ds.drop m) : ram' (d.addr + 3) = ram (d.addr + 3) := by
  have hmem := List.mem_of_mem_drop hd
  have hne (e : Descriptor) (he : e ∈ ds.take m) : d.addr + 3 ≠ e.addr + 3 := by
    intro heq
    have hapart := hlaid.apart
    rw [← List.take_append_drop m ds, List.pairwise_append] at hapart
    exact hapart.2.2 e he d hd (d.addr + 3) (heq ▸ e.holds_own) d.holds_own
  rw [h.rest _ hne, scatter_of_not_mem fun e he =>
    hlaid.clear d hmem e (List.mem_of_mem_take he) _ d.holds_own]

end Consumed

theorem total_take_le (ds : List Descriptor) (k : ℕ) : total (ds.take k) ≤ total ds :=
  ((List.take_sublist k ds).map Descriptor.n).sum_le_sum fun _ _ => Nat.zero_le _

/-- The `OWN` bits tell how many descriptors have been used. -/
theorem total_le_of_consumed {ram ram' : ℕ → Byte} {addr : ℕ} {data : List Byte}
    {ds : List Descriptor} {k m : ℕ} (h : WellFormed ram addr data ds)
    (hm : Consumed data (ds.take m) ram ram') (hk : Consumed data (ds.take k) ram ram') :
    total (ds.take k) ≤ total (ds.take m) := by
  by_cases hkm : k ≤ m
  · calc total (ds.take k) = total ((ds.take m).take k) := by rw [List.take_take, min_eq_left hkm]
      _ ≤ total (ds.take m) := total_take_le _ k
  · have hlength : ds.length ≤ m := by
      by_contra hlt
      have hmk : m < ds.length ∧ m < k := by omega
      have hused : ds[m] ∈ ds.take k :=
        List.mem_take_iff_getElem.2 ⟨m, lt_min hmk.2 hmk.1, rfl⟩
      have hkept : ds[m] ∈ ds.drop m :=
        List.mem_drop_iff_getElem.2 ⟨0, by omega, rfl⟩
      have hset := h.chain.own_set (List.mem_of_mem_take hused)
      rw [← hm.own_eq h.laid hkept, hk.own_clear hused] at hset
      exact Bool.false_ne_true hset
    rw [List.take_of_length_le hlength]
    exact total_take_le ds k

/-! ## The interrupt -/

/-- The data-done interrupt is raised and the data is in the buffers of `ds`. -/
structure Done (data : List Byte) (ds : List Descriptor) (s s' : Dwmmc) : Prop where
  raised : s'.rintsts = s.rintsts ||| Dwmmc.DTO
  placed : data.length ≤ total ds
  consumed : Consumed data ds s.ram s'.ram

/-- A transfer ends with the interrupt and all of the data in the first buffers of the chain. -/
def Completes (data : List Byte) (ds : List Descriptor) (s : Dwmmc) : Prop :=
  ∃ k s', s.idmac data = some s' ∧ Done data (ds.take k) s s'

/-- Where the transfer ends that way, the walk has not been cut off too early. -/
theorem le_total_of_completes {s : Dwmmc} {data : List Byte} {ds : List Descriptor}
    (h : WellFormed s.ram ((s.regs Dwmmc.rDbaddr).getD 0) data ds) (hc : Completes data ds s) :
    data.length ≤ total (ds.take 4096) := by
  obtain ⟨k, s', hs', hdone⟩ := hc
  obtain rfl := Option.some.inj ((idmac_eq h).symm.trans hs')
  have hwalk := consume_consumed (h.laid.take 4096) data s.ram
  calc data.length ≤ total (ds.take k) := hdone.placed
    _ ≤ total (ds.take 4096) := total_le_of_consumed h hwalk hdone.consumed

theorem completes_iff (s : Dwmmc) (data : List Byte) (ds : List Descriptor)
    (h : WellFormed s.ram ((s.regs Dwmmc.rDbaddr).getD 0) data ds) :
    Completes data ds s ↔ data.length ≤ total (ds.take 4096) := by
  refine ⟨le_total_of_completes h, fun hle => ⟨4096, _, idmac_eq h, ?_⟩⟩
  exact ⟨rfl, hle, consume_consumed (h.laid.take 4096) data s.ram⟩

/-! ## Chains of any length -/

def Descriptor.words (d : Descriptor) : List (BitVec 32) :=
  [d.flags, d.size, d.buf, d.nxt].map (BitVec.ofNat 32)

/-- The `i`-th of `m + 1` chained descriptors for 4 KiB each, the way u-boot sets them up. -/
def entry (m i : ℕ) : Descriptor where
  addr := ddrBase + 16 * i
  flags := if i = m then 0x80000014 else 0x80000010
  size := 0x1000
  buf := 0x50000000 + 0x1000 * i
  nxt := ddrBase + 16 * (i + 1)

/-- `k` of them, from the `i`-th on. -/
def entries (m i k : ℕ) : List Descriptor := (List.range' i k).map (entry m)

/-- The descriptors at the start of the DDR. -/
def entryRam (m a : ℕ) : Byte :=
  (wordBytes (entry m ((a - ddrBase) / 16)).words).getD ((a - ddrBase) % 16) 0

section Entries

variable {m : ℕ}

theorem bytes16_entryRam (m i : ℕ) :
    bytes16 (entryRam m) (ddrBase + 16 * i) = wordBytes (entry m i).words := by
  refine List.ext_getElem (by rw [bytes16, length_wordBytes]; rfl) fun j hj hj' => ?_
  have hlt : j < 16 := by simpa [bytes16] using hj
  have hdiv : (ddrBase + 16 * i + j - ddrBase) / 16 = i := by omega
  have hmod : (ddrBase + 16 * i + j - ddrBase) % 16 = j := by omega
  rw [← List.getD_eq_getElem _ 0 hj, getD_bytes16 _ _ hlt, entryRam, hdiv, hmod,
    List.getD_eq_getElem _ _ hj']

theorem load_entryRam {i : ℕ} (hm : m ≤ 4096) (hi : i ≤ m) :
    load (entryRam m) (ddrBase + 16 * i) = entry m i := by
  have hword (j n : ℕ) (hn : n < 2 ^ 32) (hj : j < 4)
      (heq : (entry m i).words.getD j 0 = BitVec.ofNat 32 n) :
      (wordAt (bytes16 (entryRam m) (ddrBase + 16 * i)) (4 * j)).toNat = n := by
    rw [bytes16_entryRam, wordAt_wordBytes hj, heq, BitVec.toNat_ofNat, Nat.mod_eq_of_lt hn]
  have hflags : (entry m i).flags < 2 ^ 32 := by
    simp only [entry]
    split_ifs <;> omega
  have hnxt : (entry m i).nxt < 2 ^ 32 := by simp only [entry, ddrBase]; omega
  have hbuf : (entry m i).buf < 2 ^ 32 := by simp only [entry]; omega
  rw [load, hword 0 _ hflags (by decide) rfl, hword 1 0x1000 (by decide) (by decide) rfl,
    hword 2 _ hbuf (by decide) rfl, hword 3 _ hnxt (by decide) rfl]
  rfl

theorem chain_entries (hm : m ≤ 4096) {k i : ℕ} (h : i + k = m) :
    Chain (entryRam m) (ddrBase + 16 * i) (entries m i (k + 1)) := by
  induction k generalizing i with
  | zero =>
    obtain rfl : i = m := h
    have hload := load_entryRam hm (le_refl i)
    have hflags : (entry i i).flags = 0x80000014 := if_pos rfl
    rw [entries, List.range'_succ, List.map_cons, ← hload]
    exact .last (by rw [hload, Descriptor.own, hflags]; decide)
      (by rw [hload, Descriptor.last, hflags]; decide)
  | succ k ih =>
    have hload := load_entryRam hm (show i ≤ m by omega)
    have hflags : (entry m i).flags = 0x80000010 := if_neg (by omega)
    rw [entries, List.range'_succ, List.map_cons, ← hload]
    refine .link (by rw [hload, Descriptor.own, hflags]; decide)
      (by rw [hload, Descriptor.last, hflags]; decide) ?_
    have hnext : (load (entryRam m) (ddrBase + 16 * i)).next = ddrBase + 16 * (i + 1) := by
      rw [hload, Descriptor.next, hflags]
      rfl
    rw [hnext]
    exact ih (by omega)

theorem entry_n (m i : ℕ) : (entry m i).n = 0x1000 := show 0x1000 &&& 0x1FFF = 0x1000 by decide

theorem laid_entries (hm : m ≤ 4096) : Laid (entries m 0 (m + 1)) := by
  have hmem {d : Descriptor} (hd : d ∈ entries m 0 (m + 1)) : ∃ i ≤ m, entry m i = d := by
    obtain ⟨i, hi, rfl⟩ := List.mem_map.1 hd
    exact ⟨i, by have := List.mem_range'_1.1 hi; omega, rfl⟩
  refine ⟨fun d hd => ?_, fun d hd => ?_, ?_, fun d hd e he a ha hb => ?_⟩
  · obtain ⟨i, hi, rfl⟩ := hmem hd
    simp only [InRam, entry, sramBase, sramSize, ddrBase, ddrSize]
    omega
  · obtain ⟨i, hi, rfl⟩ := hmem hd
    rw [entry_n]
    simp only [InRam, entry, sramBase, sramSize, ddrBase, ddrSize]
    omega
  · rw [entries, List.pairwise_map]
    refine List.Pairwise.imp (fun {i j} hij => ?_) (List.pairwise_lt_range' 1)
    intro a ha hb
    simp only [Descriptor.Holds, entry] at ha hb
    omega
  · obtain ⟨i, hi, rfl⟩ := hmem hd
    obtain ⟨j, hj, rfl⟩ := hmem he
    simp only [Descriptor.Holds, Descriptor.Buffer, entry, ddrBase] at ha hb
    omega

theorem total_entries (m i k : ℕ) : total (entries m i k) = k * 0x1000 := by
  have hn : Descriptor.n ∘ entry m = fun _ => 0x1000 := funext (entry_n m)
  rw [total, entries, List.map_map, hn, List.map_const', List.sum_replicate_nat,
    List.length_range']

theorem take_entries {k : ℕ} (h : k ≤ m + 1) :
    (entries m 0 (m + 1)).take k = entries m 0 k := by
  rw [entries, ← List.map_take, List.take_range'_of_length_ge h, entries]

end Entries

/-- A controller whose descriptor base is the first entry. -/
def guest (m : ℕ) : Dwmmc :=
  let s := Dwmmc.init (some { image := [] }) (entryRam m)
  { s with regs := Function.update s.regs Dwmmc.rDbaddr (some ddrBase) }

def blocks (m : ℕ) : List Byte := List.replicate ((m + 1) * 0x1000) 0xA5

theorem wellFormed_entries {m : ℕ} (hm : m ≤ 4096) :
    WellFormed (guest m).ram (((guest m).regs Dwmmc.rDbaddr).getD 0) (blocks m)
      (entries m 0 (m + 1)) := by
  have hram : (guest m).ram = entryRam m := by rw [guest, Dwmmc.init]
  have hbase : ((guest m).regs Dwmmc.rDbaddr).getD 0 = ddrBase + 16 * 0 := by
    simp only [guest, Function.update_self, Option.getD_some, Nat.mul_zero, Nat.add_zero]
  have hchain : Chain (entryRam m) (ddrBase + 16 * 0) (entries m 0 (m + 1)) :=
    chain_entries hm (Nat.zero_add m)
  rw [hram, hbase]
  refine ⟨hchain, laid_entries hm, ?_⟩
  rw [blocks, List.length_replicate, total_entries]

/-- 8 KiB to two descriptors. -/
theorem completes_two : Completes (blocks 1) (entries 1 0 2) (guest 1) := by
  refine (completes_iff (guest 1) (blocks 1) (entries 1 0 2) (wellFormed_entries (by decide))).2 ?_
  rw [List.take_of_length_le (by decide), blocks, List.length_replicate, total_entries]

/-- 16 MiB and 4 KiB to 4097 descriptors. -/
theorem not_completes :
    WellFormed (guest 4096).ram (((guest 4096).regs Dwmmc.rDbaddr).getD 0) (blocks 4096)
      (entries 4096 0 4097) ∧ ¬ Completes (blocks 4096) (entries 4096 0 4097) (guest 4096) := by
  have h := wellFormed_entries (le_refl 4096)
  refine ⟨h, fun hc => ?_⟩
  have hle := le_total_of_completes h hc
  rw [take_entries (by decide), total_entries, blocks, List.length_replicate] at hle
  omega

end Gec6818Bl1.Emulator.Idmac

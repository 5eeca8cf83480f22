import Gec6818Bl1.Lib.ByteMem
import Gec6818Bl1.Lib.Splice

/-!
# write_sdcard

`write_sdcard.py` puts the boot chain on a card, or into an image file. Each binary has a slot of
its own; `build_plan` loads them and checks their sizes, and `do_write` makes the file large enough
and writes each binary with one `os.pwrite`.

The answers of `os.pwrite` are an argument: a call may store fewer bytes than it was given, and
says how many. A file that is read is an argument too.

**Frame.** Whatever the calls answer, the ranges are disjoint and nothing else changes. But
`do_write` does not look at the answers: an item is there in full iff what its call left out was
there before.
-/

namespace Gec6818Bl1.Tools

open ByteMem Splice

/-! ## The plan -/

/-- Where an item goes, and how large it may be. -/
structure Slot where
  name : String
  offset : ℕ
  slotSize : ℕ

def fipRegionEnd : ℕ := 0x2E0200

def bl1Slot : Slot := ⟨"bl1", 0x200, 0x10000⟩
def fipLoaderSlot : Slot := ⟨"fip-loader", 0x10200, 0x50000⟩
def fipSecureSlot : Slot := ⟨"fip-secure", 0x60200, 0xC0000⟩
def fipNonsecureSlot : Slot := ⟨"fip-nonsecure", 0x1E0200, 0x100000⟩
def directUbootSlot : Slot :=
  ⟨"u-boot (direct)", fipLoaderSlot.offset, fipRegionEnd - fipLoaderSlot.offset⟩

/-- A binary that was loaded, so that it fits its slot. -/
structure Item extends Slot where
  data : List Byte
  fits : data.length ≤ slotSize

inductive PlanError where
  /-- `exceeds its ...-byte slot`. -/
  | exceedsSlot (name : String)
  /-- `a overlaps b`. -/
  | overlaps (a b : String)

/-- `Item.load`, for the bytes the file holds. -/
def Item.load (slot : Slot) (data : List Byte) : Except PlanError Item :=
  if h : data.length ≤ slot.slotSize then .ok { slot with data, fits := h }
  else .error (.exceedsSlot slot.name)

/-- The two modes, and the files each of them takes. -/
inductive Images where
  | atf (bl1 fipLoader fipSecure fipNonsecure : List Byte)
  | direct (bl1 uboot : List Byte)

def Images.files : Images → List (Slot × List Byte)
  | atf bl1 fipLoader fipSecure fipNonsecure =>
    [(bl1Slot, bl1), (fipLoaderSlot, fipLoader), (fipSecureSlot, fipSecure),
      (fipNonsecureSlot, fipNonsecure)]
  | direct bl1 uboot => [(bl1Slot, bl1), (directUbootSlot, uboot)]

/-- Where an item ends. -/
def Item.stop (it : Item) : ℕ := it.offset + it.data.length

def buildPlan (imgs : Images) : Except PlanError (List Item) := do
  let items ← imgs.files.mapM fun (slot, data) => Item.load slot data
  let items := items.mergeSort fun a b => a.offset ≤ b.offset
  match (items.zip items.tail).find? fun (a, b) => a.stop > b.offset with
  | some (a, b) => throw (.overlaps a.name b.name)
  | none => return items

/-! ## The writes -/

/-- The target of `do_write`. A path that does not exist yet has no content. -/
structure Target where
  isBlock : Bool
  content : Option (List Byte)

def Target.old (t : Target) : List Byte := t.content.getD []

/-- `max(it.offset + len(it.data) for it in items)`. -/
def needed (items : List Item) : ℕ := items.foldl (fun n it => max n it.stop) 0

/-- What the target holds when the writes begin: a file is made large enough first. -/
def startContent (t : Target) (items : List Item) : List Byte :=
  if t.isBlock then t.old
  else t.old ++ List.replicate (needed items - t.old.length) 0

/-- `os.pwrite(fd, it.data, it.offset)`, when it answers `count`. -/
def pwrite (content : List Byte) (it : Item) (count : ℕ) : List Byte :=
  if count = 0 then content else splice 0 content it.offset (it.data.take count)

/-- One `os.pwrite` per item; one that raises ends the function. -/
def pwriteItems (content : List Byte) : List Item → List (Option ℕ) → Option (List Byte)
  | [], _ => some content
  | it :: items, some count :: answers => pwriteItems (pwrite content it count) items answers
  | _ :: _, _ => none

/-- `do_write`: what the target holds when it returns. -/
def doWrite (t : Target) (items : List Item) (answers : List (Option ℕ)) : Option (List Byte) :=
  pwriteItems (startContent t items) items answers

/-! ## One write -/

theorem pwrite_eq (content : List Byte) (it : Item) {count : ℕ} (h : count ≠ 0) :
    pwrite content it count = splice 0 content it.offset (it.data.take count) := if_neg h

theorem length_pwrite {content : List Byte} {it : Item} {count : ℕ}
    (hin : count ≠ 0 → it.offset + count ≤ content.length) :
    (pwrite content it count).length = content.length := by
  by_cases h : count = 0
  · rw [pwrite, if_pos h]
  · rw [pwrite_eq _ _ h]
    apply length_splice_of_le
    exact (Nat.add_le_add_left (List.length_take_le _ _) _).trans (hin h)

theorem getElem?_pwrite {content : List Byte} {it : Item} {count : ℕ}
    (hcount : count ≤ it.data.length) (hin : count ≠ 0 → it.offset + count ≤ content.length)
    (k : ℕ) :
    (pwrite content it count)[k]? =
      if it.offset ≤ k ∧ k < it.offset + count then it.data[k - it.offset]? else content[k]? := by
  by_cases h : count = 0
  · rw [pwrite, if_pos h, if_neg (by omega)]
  · have htake : (it.data.take count).length = count := List.length_take_of_le hcount
    rw [pwrite_eq _ _ h, getElem?_splice_of_le 0 (by rw [htake]; exact hin h), htake]
    split
    · rw [List.getElem?_take, if_pos (by omega)]
    · rfl

/-! ## All the writes -/

/-- The calls that returned, each with its answer. -/
def calls : List Item → List (Option ℕ) → List (Item × ℕ)
  | it :: items, some count :: answers => (it, count) :: calls items answers
  | _, _ => []

/-- What a call may answer: a part of its data, not nothing if there is any, and nothing past the
end of a block device. -/
structure CountOk (t : Target) (p : Item × ℕ) : Prop where
  le_length : p.2 ≤ p.1.data.length
  pos : p.1.data ≠ [] → 1 ≤ p.2
  on_device : t.isBlock = true → p.2 ≠ 0 → p.1.offset + p.2 ≤ t.old.length

/-- `do_write` returns when every call has. -/
theorem pwriteItems_eq_some {items : List Item} {answers : List (Option ℕ)}
    {content new : List Byte} (h : pwriteItems content items answers = some new) :
    (calls items answers).map Prod.fst = items ∧
      (calls items answers).foldl (fun content p => pwrite content p.1 p.2) content = new := by
  induction items generalizing content answers with
  | nil => exact ⟨rfl, Option.some.inj h⟩
  | cons it items ih =>
    match answers, h with
    | some count :: answers, h =>
      obtain ⟨hmap, hfold⟩ := ih h
      exact ⟨congrArg (it :: ·) hmap, hfold⟩

/-- An item ends before the other begins. -/
def Item.Before (a b : Item) : Prop := a.stop ≤ b.offset

/-- Each call stores its part, which no other call touches. -/
theorem foldl_pwrite {ps : List (Item × ℕ)} {content : List Byte}
    (hsorted : ps.Pairwise fun a b => a.1.Before b.1)
    (hcount : ∀ p ∈ ps, p.2 ≤ p.1.data.length)
    (hin : ∀ p ∈ ps, p.2 ≠ 0 → p.1.offset + p.2 ≤ content.length) :
    (ps.foldl (fun content p => pwrite content p.1 p.2) content).length = content.length ∧
      (∀ k, (∀ p ∈ ps, ¬ (p.1.offset ≤ k ∧ k < p.1.offset + p.2)) →
        (ps.foldl (fun content p => pwrite content p.1 p.2) content)[k]? = content[k]?) ∧
      ∀ p ∈ ps, ∀ j < p.2,
        (ps.foldl (fun content p => pwrite content p.1 p.2) content)[p.1.offset + j]? =
          p.1.data[j]? := by
  induction ps generalizing content with
  | nil => exact ⟨rfl, fun _ _ => rfl, fun _ h => absurd h List.not_mem_nil⟩
  | cons p ps ih =>
    rw [List.pairwise_cons] at hsorted
    rw [List.forall_mem_cons] at hcount hin
    have hlen := length_pwrite hin.1
    have hget := getElem?_pwrite hcount.1 hin.1
    obtain ⟨hlength, hframe, hstored⟩ := @ih (pwrite content p.1 p.2) hsorted.2 hcount.2
      (fun q hq => by rw [hlen]; exact hin.2 q hq)
    rw [List.foldl_cons]
    refine ⟨hlength.trans hlen, ?_, ?_⟩
    · intro k hk
      rw [List.forall_mem_cons] at hk
      rw [hframe k hk.2, hget, if_neg hk.1]
    · rw [List.forall_mem_cons]
      refine ⟨?_, hstored⟩
      intro j hj
      rw [hframe, hget, if_pos (by omega), Nat.add_sub_cancel_left]
      intro q hq
      have hbefore : p.1.offset + p.1.data.length ≤ q.1.offset := hsorted.1 q hq
      omega

/-! ## A plan that was built -/

theorem Item.load_eq_ok {slot : Slot} {data : List Byte} {it : Item}
    (h : Item.load slot data = .ok it) : it.toSlot = slot ∧ it.data = data := by
  unfold Item.load at h
  split at h
  · cases h
    exact ⟨rfl, rfl⟩
  · cases h

theorem bind_eq_ok {ε α β : Type} {x : Except ε α} {f : α → Except ε β} {b : β}
    (h : x >>= f = .ok b) : ∃ a, x = .ok a ∧ f a = .ok b := by
  cases x with
  | error e => cases h
  | ok a => exact ⟨a, rfl, h⟩

theorem mapM_load_eq_ok {files : List (Slot × List Byte)} {items : List Item}
    (h : (files.mapM fun (slot, data) => Item.load slot data) = .ok items) :
    items.map Item.toSlot = files.map Prod.fst := by
  induction files generalizing items with
  | nil =>
    cases h
    rfl
  | cons file files ih =>
    rw [List.mapM_cons] at h
    obtain ⟨it, hit, h⟩ := bind_eq_ok h
    obtain ⟨rest, hrest, h⟩ := bind_eq_ok h
    cases h
    rw [List.map_cons, List.map_cons, ih hrest, (Item.load_eq_ok hit).1]

/-- The slots of both modes, one after the other, behind the first sector and before the
environment. -/
theorem files_slots (imgs : Images) :
    (imgs.files.map Prod.fst).Pairwise (fun a b => a.offset + a.slotSize ≤ b.offset) ∧
      ∀ slot ∈ imgs.files.map Prod.fst,
        0x200 ≤ slot.offset ∧ slot.offset + slot.slotSize ≤ fipRegionEnd := by
  have hatf : ([bl1Slot, fipLoaderSlot, fipSecureSlot, fipNonsecureSlot].Pairwise
      fun a b => a.offset + a.slotSize ≤ b.offset) ∧
      ∀ slot ∈ [bl1Slot, fipLoaderSlot, fipSecureSlot, fipNonsecureSlot],
        0x200 ≤ slot.offset ∧ slot.offset + slot.slotSize ≤ fipRegionEnd := by decide
  have hdirect : ([bl1Slot, directUbootSlot].Pairwise
      fun a b => a.offset + a.slotSize ≤ b.offset) ∧
      ∀ slot ∈ [bl1Slot, directUbootSlot],
        0x200 ≤ slot.offset ∧ slot.offset + slot.slotSize ≤ fipRegionEnd := by decide
  cases imgs
  · exact hatf
  · exact hdirect

/-- What is known of the items of a plan. -/
structure PlanOk (items : List Item) : Prop where
  sorted : items.Pairwise Item.Before
  region : ∀ it ∈ items, 0x200 ≤ it.offset ∧ it.stop ≤ fipRegionEnd

theorem Item.stop_le (it : Item) : it.stop ≤ it.offset + it.slotSize :=
  Nat.add_le_add_left it.fits _

theorem buildPlan_ok {imgs : Images} {items : List Item} (h : buildPlan imgs = .ok items) :
    PlanOk items := by
  obtain ⟨loaded, hloaded, h⟩ := bind_eq_ok h
  obtain ⟨hslots, hregion⟩ := files_slots imgs
  rw [← mapM_load_eq_ok hloaded] at hslots hregion
  have hbefore : loaded.Pairwise Item.Before :=
    (List.pairwise_map.1 hslots).imp fun {a b} hab => a.stop_le.trans hab
  -- the slots are in order, so sorting the items changes nothing
  have hsort : loaded.mergeSort (fun a b => a.offset ≤ b.offset) = loaded := by
    apply List.mergeSort_of_pairwise
    exact hbefore.imp fun {a b} hab => decide_eq_true (le_trans (Nat.le_add_right _ _) hab)
  have hitems : loaded = items := by
    simp only [hsort] at h
    split at h
    · cases h
    · exact Except.ok.inj h
  subst hitems
  refine ⟨hbefore, fun it hit => ?_⟩
  obtain ⟨hlow, hhigh⟩ := hregion it.toSlot (List.mem_map_of_mem hit)
  exact ⟨hlow, it.stop_le.trans hhigh⟩

/-! ## What `do_write` is for -/

/-- Every item is on the target, in a range of its own, and nothing else has changed. -/
structure WritesPlan (t : Target) (items : List Item) (new : List Byte) : Prop where
  stored : ∀ it ∈ items, ∀ j < it.data.length, new[it.offset + j]? = it.data[j]?
  disjoint : items.Pairwise fun a b => ∀ k, ¬ ((a.offset ≤ k ∧ k < a.stop) ∧
    (b.offset ≤ k ∧ k < b.stop))
  kept : ∀ k < t.old.length, (∀ it ∈ items, ¬ (it.offset ≤ k ∧ k < it.stop)) →
    new[k]? = t.old[k]?
  /-- The first sector, and everything from the environment on. -/
  outside : ∀ k < t.old.length, k < 0x200 ∨ fipRegionEnd ≤ k → new[k]? = t.old[k]?
  device : t.isBlock = true → new.length = t.old.length
  /-- A file grows by zeros only. -/
  extended : ∀ k, t.old.length ≤ k → k < new.length →
    (∀ it ∈ items, ¬ (it.offset ≤ k ∧ k < it.stop)) → new[k]? = some 0

/-- What the call for an item left out was there before. -/
def RestThere (t : Target) (items : List Item) (p : Item × ℕ) : Prop :=
  ∀ j, p.2 ≤ j → j < p.1.data.length →
    (startContent t items)[p.1.offset + j]? = p.1.data[j]?

section Write

variable {t : Target} {items : List Item} {answers : List (Option ℕ)} {new : List Byte}

theorem needed_ge {it : Item} (h : it ∈ items) : it.stop ≤ needed items := by
  have hmono : ∀ (items : List Item) n, n ≤ items.foldl (fun n it => max n it.stop) n ∧
      ∀ it ∈ items, it.stop ≤ items.foldl (fun n it => max n it.stop) n := by
    intro items
    induction items with
    | nil => exact fun n => ⟨le_refl n, fun _ h => absurd h List.not_mem_nil⟩
    | cons a items ih =>
      intro n
      obtain ⟨hn, hitems⟩ := ih (max n a.stop)
      rw [List.foldl_cons, List.forall_mem_cons]
      exact ⟨(le_max_left _ _).trans hn, (le_max_right _ _).trans hn, hitems⟩
  exact (hmono items 0).2 it h

theorem startContent_file (h : t.isBlock = false) :
    startContent t items = t.old ++ List.replicate (needed items - t.old.length) 0 := by
  rw [startContent, h, if_neg Bool.false_ne_true]

theorem startContent_old {k : ℕ} (hk : k < t.old.length) :
    (startContent t items)[k]? = t.old[k]? := by
  unfold startContent
  split
  · rfl
  · rw [List.getElem?_append_left hk]

theorem startContent_zero {k : ℕ} (hk : t.old.length ≤ k)
    (hlt : k < (startContent t items).length) :
    (startContent t items)[k]? = some 0 := by
  cases hblock : t.isBlock with
  | true =>
    rw [startContent, if_pos hblock] at hlt
    omega
  | false =>
    rw [startContent_file hblock, List.length_append, List.length_replicate] at hlt
    rw [startContent_file hblock, List.getElem?_append_right hk,
      List.getElem?_replicate_of_lt (by omega)]

/-- Each call stays within what is there when the writes begin. -/
theorem CountOk.fits {p : Item × ℕ} (h : CountOk t p) (hp : p.1 ∈ items) (hne : p.2 ≠ 0) :
    p.1.offset + p.2 ≤ (startContent t items).length := by
  cases hblock : t.isBlock with
  | true =>
    rw [startContent, if_pos hblock]
    exact h.on_device hblock hne
  | false =>
    have hstop : p.1.offset + p.1.data.length ≤ needed items := needed_ge hp
    have hcount := h.le_length
    rw [startContent_file hblock, List.length_append, List.length_replicate]
    omega

/-- Of two calls, one is before the other. -/
theorem pairwise_before {ps : List (Item × ℕ)} (h : ps.Pairwise fun a b => a.1.Before b.1)
    {p q : Item × ℕ} (hp : p ∈ ps) (hq : q ∈ ps) : p = q ∨ p.1.Before q.1 ∨ q.1.Before p.1 := by
  have hself : ∀ p ∈ ps, p = p ∨ p.1.Before p.1 ∨ p.1.Before p.1 := fun _ _ => Or.inl rfl
  have hfwd : ps.Pairwise fun a b => a = b ∨ a.1.Before b.1 ∨ b.1.Before a.1 :=
    h.imp fun hab => Or.inr (Or.inl hab)
  have hback : ps.Pairwise fun a b => b = a ∨ b.1.Before a.1 ∨ a.1.Before b.1 :=
    h.imp fun hab => Or.inr (Or.inr hab)
  exact List.Pairwise.forall_of_forall_of_flip hself hfwd hback hp hq

/-- What the calls have done. Outside the ranges of the items, and where a call left bytes out, the
target is as the writes found it. -/
structure Ran (t : Target) (items : List Item) (ps : List (Item × ℕ)) (new : List Byte) : Prop where
  items_eq : ps.map Prod.fst = items
  length_eq : new.length = (startContent t items).length
  stored : ∀ p ∈ ps, ∀ j < p.2, new[p.1.offset + j]? = p.1.data[j]?
  kept : ∀ k, (∀ it ∈ items, ¬ (it.offset ≤ k ∧ k < it.stop)) →
    new[k]? = (startContent t items)[k]?
  rest : ∀ p ∈ ps, ∀ j, p.2 ≤ j → j < p.1.data.length →
    new[p.1.offset + j]? = (startContent t items)[p.1.offset + j]?

theorem doWrite_ran (hok : PlanOk items) (hcount : ∀ p ∈ calls items answers, CountOk t p)
    (hdone : doWrite t items answers = some new) : Ran t items (calls items answers) new := by
  obtain ⟨hmap, hnew⟩ := pwriteItems_eq_some hdone
  have hmem {p : Item × ℕ} (hp : p ∈ calls items answers) : p.1 ∈ items := by
    rw [← hmap]
    exact List.mem_map_of_mem hp
  have hsorted : (calls items answers).Pairwise fun a b => a.1.Before b.1 := by
    have hitems := hok.sorted
    rw [← hmap] at hitems
    exact List.pairwise_map.1 hitems
  obtain ⟨hlength, hframe, hstored⟩ := foldl_pwrite hsorted (fun p hp => (hcount p hp).le_length)
    fun p hp => (hcount p hp).fits (hmem hp)
  rw [hnew] at hlength hframe hstored
  refine ⟨hmap, hlength, hstored, ?_, ?_⟩
  · intro k hk
    refine hframe k fun p hp hin => hk p.1 (hmem hp) ⟨hin.1, lt_of_lt_of_le hin.2 ?_⟩
    exact Nat.add_le_add_left (hcount p hp).le_length _
  -- what a call left out is in no other item's range
  · intro p hp j hle hlt
    refine hframe _ fun q hq hin => ?_
    have hq_le := (hcount q hq).le_length
    rcases pairwise_before hsorted hp hq with rfl | hbefore | hbefore
    · omega
    · have : p.1.offset + p.1.data.length ≤ q.1.offset := hbefore
      omega
    · have : q.1.offset + q.1.data.length ≤ p.1.offset := hbefore
      omega

/-- **Frame.** Of a plan that is accepted, `do_write` writes every item in full and nothing else iff
what its calls left out was there before. -/
theorem doWrite_writesPlan_iff {imgs : Images} (hplan : buildPlan imgs = .ok items)
    (hcount : ∀ p ∈ calls items answers, CountOk t p) (hdone : doWrite t items answers = some new) :
    WritesPlan t items new ↔ ∀ p ∈ calls items answers, RestThere t items p := by
  have hok := buildPlan_ok hplan
  have hran := doWrite_ran hok hcount hdone
  constructor
  · intro h p hp j hle hlt
    rw [← hran.rest p hp j hle hlt]
    have hit : p.1 ∈ items := by
      rw [← hran.items_eq]
      exact List.mem_map_of_mem hp
    exact h.stored p.1 hit j hlt
  · intro h
    constructor
    · intro it hit j hj
      rw [← hran.items_eq] at hit
      obtain ⟨p, hp, rfl⟩ := List.mem_map.1 hit
      rcases Nat.lt_or_ge j p.2 with hlt | hge
      · exact hran.stored p hp j hlt
      · rw [hran.rest p hp j hge hj]
        exact h p hp j hge hj
    · refine hok.sorted.imp fun {a b} hab k hk => ?_
      have hbefore : a.stop ≤ b.offset := hab
      omega
    · intro k hk hout
      rw [hran.kept k hout, startContent_old hk]
    · intro k hk hregion
      rw [hran.kept k ?_, startContent_old hk]
      intro it hit hin
      obtain ⟨hlow, hhigh⟩ := hok.region it hit
      omega
    · intro hblock
      rw [hran.length_eq, startContent, if_pos hblock]
    · intro k hge hlt hout
      rw [hran.kept k hout, startContent_zero hge (hran.length_eq ▸ hlt)]

end Write

/-! ## A short write -/

/-- Two bytes of BL1 and no u-boot. -/
def smallImages : Images := .direct [1, 2] []

def smallItems : List Item :=
  [{ bl1Slot with data := [1, 2], fits := by decide },
    { directUbootSlot with data := [], fits := by decide }]

theorem smallImages_plan : buildPlan smallImages = .ok smallItems := by
  have hload : (smallImages.files.mapM fun (slot, data) => Item.load slot data) =
    .ok smallItems := rfl
  have hsort : smallItems.mergeSort (fun a b => a.offset ≤ b.offset) = smallItems := by
    apply List.mergeSort_of_pairwise
    decide
  simp only [buildPlan, hload, bind, Except.bind, hsort]
  rfl

/-- A file that is not there yet. -/
def newFile : Target := { isBlock := false, content := none }

theorem newFile_countOk {it : Item} {count : ℕ} (hle : count ≤ it.data.length)
    (hpos : it.data ≠ [] → 1 ≤ count) : CountOk newFile (it, count) :=
  ⟨hle, hpos, fun hblock => absurd hblock (by decide)⟩

theorem smallItems_countOk {count : ℕ} (hle : count ≤ 2) (hpos : 1 ≤ count) :
    ∀ p ∈ calls smallItems [some count, some 0], CountOk newFile p := by
  have hcalls : calls smallItems [some count, some 0] =
    [(smallItems[0], count), (smallItems[1], 0)] := rfl
  rw [hcalls, List.forall_mem_cons, List.forall_mem_singleton]
  exact ⟨newFile_countOk hle fun _ => hpos, newFile_countOk (by decide) (by decide)⟩

theorem newFile_start (items : List Item) :
    startContent newFile items = List.replicate (needed items) 0 := by
  rw [startContent_file rfl]
  exact List.nil_append _

theorem smallItems_written :
    ∃ new, doWrite newFile smallItems [some 2, some 0] = some new ∧
      WritesPlan newFile smallItems new := by
  refine ⟨_, rfl, (doWrite_writesPlan_iff smallImages_plan
    (smallItems_countOk (by decide) (by decide)) rfl).2 ?_⟩
  have hcalls : calls smallItems [some 2, some 0] =
    [(smallItems[0], 2), (smallItems[1], 0)] := rfl
  rw [hcalls, List.forall_mem_cons, List.forall_mem_singleton]
  constructor
  · intro j hle hlt
    exact absurd hlt (Nat.not_lt.2 hle)
  · intro j _ hlt
    exact absurd hlt (Nat.not_lt_zero j)

/-- BL1's call answers 1: `do_write` returns, and the second byte is not in the file. -/
theorem smallItems_not_written :
    buildPlan smallImages = .ok smallItems ∧
      (∀ p ∈ calls smallItems [some 1, some 0], CountOk newFile p) ∧
      ∃ new, doWrite newFile smallItems [some 1, some 0] = some new ∧
        ¬ WritesPlan newFile smallItems new := by
  refine ⟨smallImages_plan, smallItems_countOk (by decide) (by decide), _, rfl, fun h => ?_⟩
  have hneeded : needed smallItems = 0x10200 := by decide
  have hstored := h.stored smallItems[0] List.mem_cons_self 1 (by decide)
  rw [pwrite, if_pos rfl, newFile_start, hneeded, getElem?_pwrite (by decide) ?_,
    if_neg (by decide), List.getElem?_replicate_of_lt (by decide)] at hstored
  · exact absurd hstored (by decide)
  · rw [List.length_replicate]
    decide

end Gec6818Bl1.Tools

import Gec6818Bl1.Display.BootScreen
import Gec6818Bl1.Tools.Menuconfig

/-!
# How long the boot screen waits

`delay_ms` measures time by a counter that goes round every `2 ^ 32` microseconds, and counts whole
milliseconds of the difference. It never counts 4294968, and it counts 4294967 for the last 296
microseconds of a turn only, which samples a millisecond apart can pass by.

* **The loop** leaves at the first sample that counts `ms`, if there is one (`delayMs_first`,
  `delayMs_returns`).
* **In time.** Up to 4294966 the sample before is less than `ms` away, so the first one beyond is
  still on the same turn (`delays_of_le`).
* **Never.** Samples that pass the end of each turn by never count 4294967 (`skipping`).
* **The text.** What `menuconfig.py` accepts is a decimal number; the compiler takes digits with a
  zero in front for octal ones, and the parameter keeps 32 bits.

**Headline** (`bootDelay_iff`): of the accepted texts, those of at most 4294966 that the compiler
reads in the same way are waited for in time, and no others.
-/

namespace Gec6818Bl1.Display

/-! ## Time -/

/-- What `delay_ms` counts after some microseconds. -/
def ticks (micros : ℕ) : ℕ := micros % 2 ^ 32 / 1000

/-- The counter as `delay_ms` samples it. `clock k` is the time of the reading `k` of the call, in
microseconds, and after the last one that of its return. -/
structure FreeRunning (rd : Readings) (first : ℕ) (start : U32) (clock : ℕ → ℕ) : Prop where
  counts : ∀ k, rd (timerTcnto0, first + k) = start - BitVec.ofNat 32 (clock k)
  monotone : ∀ k, clock k ≤ clock (k + 1)
  sampled : ∀ k, clock (k + 1) ≤ clock k + 1000
  passes : ∀ t, ∃ k, t ≤ clock k

/-- For every counter the delay ends, after `wanted` to `wanted + 2` milliseconds. -/
def Delays (ms : U32) (wanted : ℕ) : Prop :=
  ∀ (mode : OpMode) (rd : Readings) (s : Screen) (start : U32) (clock : ℕ → ℕ),
    FreeRunning rd s.log.length start clock → ∃ fuel s',
      delayMs rd mode fuel ms s = some s' ∧
      clock 0 + wanted * 1000 ≤ clock (s'.log.length - s.log.length) ∧
      clock (s'.log.length - s.log.length) ≤ clock 0 + (wanted + 2) * 1000

/-- `k` is the first sample after the start that counts `ms`. -/
structure FirstOver (ms : U32) (clock : ℕ → ℕ) (k : ℕ) : Prop where
  pos : 1 ≤ k
  reached : ms.toNat ≤ ticks (clock k - clock 0)
  before : ∀ j, 1 ≤ j → j < k → ticks (clock j - clock 0) < ms.toNat

/-! ## One round -/

section Round

variable {rd : Readings} {mode : OpMode} {fuel : ℕ} {ms start «from» t : U32} {s s' : Screen}
  {clock : ℕ → ℕ}

/-- The count of a round. -/
def count (ms elapsed : U32) : U32 := if elapsed / 1000 > ms then ms else elapsed / 1000

theorem toNat_count_lt (ms elapsed : U32) :
    (count ms elapsed).toNat < ms.toNat ↔ elapsed.toNat / 1000 < ms.toNat := by
  have hdiv : (elapsed / 1000).toNat = elapsed.toNat / 1000 := BitVec.toNat_udiv
  unfold count
  split_ifs with h
  · have : ms.toNat < (elapsed / 1000).toNat := h
    omega
  · rw [hdiv]

/-- A round reads the timer once. -/
theorem delayRound_time (h : delayRound rd mode fuel ms start «from» s = some (t, s')) :
    t = count ms (start - rd (timerTcnto0, s.log.length)) ∧
      s'.log.length = s.log.length + 1 := by
  rw [delayRound] at h
  simp only [Option.bind_eq_bind, Option.bind_eq_some_iff] at h
  obtain ⟨⟨t₀, s₁⟩, hq, h⟩ := h
  obtain ⟨ht₀, hs₁⟩ := quotient_eq hq (by decide)
  have hlen : s₁.log.length = s.log.length + 1 := by
    rw [hs₁]
    exact List.length_append
  dsimp only at h
  generalize hcount : (if t₀ > ms then ms else t₀) = t₁ at h
  have ht : t₁ = count ms (start - rd (timerTcnto0, s.log.length)) := by
    rw [← hcount, ht₀]
    rfl
  split_ifs at h
  · obtain ⟨rfl, rfl⟩ := Prod.mk.inj (Option.some.inj h)
    exact ⟨ht, by rw [barGrow_log, hlen]⟩
  · obtain ⟨⟨grown, s₂⟩, hq', h⟩ := Option.bind_eq_some_iff.1 h
    obtain ⟨q, -, heq⟩ := Option.map_eq_some_iff.1 hq'
    obtain ⟨-, rfl⟩ := Prod.mk.inj heq
    obtain ⟨rfl, rfl⟩ := Prod.mk.inj (Option.some.inj h)
    refine ⟨ht, ?_⟩
    rw [barGrow_log]
    exact hlen

theorem delayRound_total (rd : Readings) (mode : OpMode) (ms start «from» : U32)
    (hfuel : 33 ≤ fuel) (s : Screen) : ∃ t s',
      delayRound rd mode fuel ms start «from» s = some (t, s') := by
  have hpos : ∀ e, count ms e ≠ ms → ms ≠ 0 := by
    intro e hne hms
    subst hms
    refine hne (BitVec.eq_of_toNat_eq (Nat.eq_zero_of_not_pos fun hlt => ?_))
    unfold count at hlt
    split_ifs at hlt with h
    · exact absurd hlt (Nat.lt_irrefl 0)
    · exact h hlt
  rw [delayRound]
  simp only [quotient_eq_some (show (1000 : U32) ≠ 0 by decide) hfuel, Option.bind_eq_bind,
    Option.bind_some]
  generalize hcount : (if _ > ms then ms else _) = t
  have ht : t = count ms (start - rd (timerTcnto0, s.log.length)) := hcount.symm
  split_ifs with h
  · exact ⟨_, _, rfl⟩
  · rw [quotient_eq_some (hpos _ (ht ▸ h)) hfuel]
    exact ⟨_, _, rfl⟩

end Round

/-! ## The loop -/

section Loop

variable {rd : Readings} {mode : OpMode} {fuel : ℕ} {ms start «from» : U32} {s s₁ s₂ s' : Screen}
  {clock : ℕ → ℕ} {first k : ℕ}

theorem FreeRunning.le (h : FreeRunning rd first start clock) : clock 0 ≤ clock k := by
  induction k with
  | zero => exact Nat.le_refl _
  | succ k ih => exact ih.trans (h.monotone k)

/-- The difference of a sample to the first one. -/
theorem FreeRunning.toNat_sub (h : FreeRunning rd first start clock) (k : ℕ) :
    (rd (timerTcnto0, first) - rd (timerTcnto0, first + k)).toNat =
      (clock k - clock 0) % 2 ^ 32 := by
  have hle := h.le (k := k)
  have hfirst := h.counts 0
  rw [Nat.add_zero] at hfirst
  rw [hfirst, h.counts k]
  simp only [BitVec.toNat_sub, BitVec.toNat_ofNat]
  have := start.isLt
  omega

/-- The round of sample `k` goes on exactly if the sample does not count `ms`. -/
theorem delayBody_of_round {t : U32} (h : FreeRunning rd first start clock)
    (hlen : s₁.log.length = first + k)
    (hround : delayRound rd mode fuel ms (rd (timerTcnto0, first)) «from» s₁ = some (t, s₂)) :
    s₂.log.length = first + (k + 1) ∧
      delayBody rd mode fuel ms (rd (timerTcnto0, first)) «from» s₁ =
        if ticks (clock k - clock 0) < ms.toNat then .inl s₂ else .inr (some s₂) := by
  obtain ⟨rfl, hlen'⟩ := delayRound_time hround
  have hlt : count ms (rd (timerTcnto0, first) - rd (timerTcnto0, s₁.log.length)) < ms ↔
      ticks (clock k - clock 0) < ms.toNat := by
    rw [BitVec.lt_def, toNat_count_lt, hlen, h.toNat_sub]
    rfl
  refine ⟨by omega, ?_⟩
  simp only [delayBody, hround, hlt]

/-- The samples up to here did not count `ms`. -/
def Waiting (ms : U32) (clock : ℕ → ℕ) (first : ℕ) (s : Screen) : Prop :=
  ∃ k, s.log.length = first + (k + 1) ∧
    ∀ j, 1 ≤ j → j < k + 1 → ticks (clock j - clock 0) < ms.toNat

theorem waiting_start (rd : Readings) (s : Screen) :
    Waiting ms clock s.log.length (s.readIO32 rd timerTcnto0).2 :=
  ⟨0, List.length_append, fun j _ _ => by omega⟩

/-- If `delay_ms` returns, then after the first sample that counts `ms`. -/
theorem delayMs_first (h : FreeRunning rd s.log.length start clock)
    (hrun : delayMs rd mode fuel ms s = some s') : ∃ k, FirstOver ms clock k ∧
      s'.log.length = s.log.length + (k + 1) := by
  refine Polling.run_post (I := Waiting ms clock s.log.length) (Q := fun r => ∀ s', r = some s' →
    ∃ k, FirstOver ms clock k ∧ s'.log.length = s.log.length + (k + 1))
    ?_ ?_ (waiting_start rd s) (Option.join_eq_some_iff.1 hrun) s' rfl
  · rintro s₁ s₂ ⟨k, hlen, hbefore⟩ hbody
    obtain ⟨t, hround⟩ := delayBody_inl hbody
    obtain ⟨hlen₂, heq⟩ := delayBody_of_round h hlen hround
    rw [heq] at hbody
    split_ifs at hbody with hlt
    refine ⟨k + 1, hlen₂, fun j hj hjk => ?_⟩
    obtain hjk | rfl := Nat.lt_succ_iff_lt_or_eq.1 hjk
    · exact hbefore j hj hjk
    · exact hlt
  · rintro s₁ _ ⟨k, hlen, hbefore⟩ hbody s₂ rfl
    obtain ⟨t, hround, -⟩ := delayBody_inr hbody
    obtain ⟨hlen₂, heq⟩ := delayBody_of_round h hlen hround
    rw [heq] at hbody
    split_ifs at hbody with hlt
    exact ⟨k + 1, ⟨Nat.succ_pos k, Nat.not_lt.1 hlt, hbefore⟩, hlen₂⟩

/-- If some sample counts `ms`, then `delay_ms` returns. -/
theorem delayMs_returns (mode : OpMode) (h : FreeRunning rd s.log.length start clock)
    (hk : FirstOver ms clock k) : ∃ fuel s', delayMs rd mode fuel ms s = some s' := by
  have hround : ∀ s₁, ∃ t s₂, delayRound rd mode (k + 33) ms (rd (timerTcnto0, s.log.length))
      s.barShown s₁ = some (t, s₂) :=
    delayRound_total rd mode ms _ s.barShown (Nat.le_add_left 33 k)
  have hrun : ∃ r, Polling.run (delayBody rd mode (k + 33) ms (rd (timerTcnto0, s.log.length))
      s.barShown) (k + 33) (s.readIO32 rd timerTcnto0).2 = some r ∧ ∃ s', r = some s' := by
    refine Polling.run_total (I := fun s₁ => ∃ j < k, s₁.log.length = s.log.length + (j + 1))
      (fun s₁ => s.log.length + k + 1 - s₁.log.length) ?_ ?_ ⟨0, hk.pos, List.length_append⟩ ?_
    · rintro s₁ s₂ ⟨j, hj, hlen⟩ hbody
      obtain ⟨t, s₃, hround⟩ := hround s₁
      obtain ⟨hlen₂, heq⟩ := delayBody_of_round h hlen hround
      rw [heq] at hbody
      split_ifs at hbody with hlt
      obtain rfl := Sum.inl.inj hbody
      have hne : j + 1 ≠ k := by
        rintro rfl
        exact absurd hk.reached (Nat.not_le.2 hlt)
      exact ⟨⟨j + 1, by omega, hlen₂⟩, by omega⟩
    · rintro s₁ r ⟨j, hj, hlen⟩ hbody
      obtain ⟨t, s₃, hround⟩ := hround s₁
      obtain ⟨-, heq⟩ := delayBody_of_round h hlen hround
      rw [heq] at hbody
      split_ifs at hbody
      exact ⟨s₃, (Sum.inr.inj hbody).symm⟩
    · have := hk.pos
      simp only [Screen.readIO32, List.length_append, List.length_singleton]
      omega
  obtain ⟨_, hrun, s', rfl⟩ := hrun
  exact ⟨k + 33, s', Option.join_eq_some_iff.2 hrun⟩

end Loop

/-! ## In time -/

section InTime

variable {rd : Readings} {ms start : U32} {clock : ℕ → ℕ} {first k : ℕ}

/-- As long as no sample has counted `ms`, the counter is on its first turn. -/
theorem FreeRunning.turn (h : FreeRunning rd first start clock) (hms : ms.toNat ≤ 4294966)
    (hbefore : ∀ j, 1 ≤ j → j < k → ticks (clock j - clock 0) < ms.toNat) :
    ∀ j, j < k → clock j ≤ clock 0 + ms.toNat * 1000 := by
  intro j
  induction j with
  | zero => exact fun _ => Nat.le_add_right _ _
  | succ j ih =>
    intro hj
    have hticks := hbefore (j + 1) (Nat.succ_pos j) hj
    have hsampled := h.sampled j
    have hj := ih (Nat.lt_of_succ_lt hj)
    rw [ticks, Nat.mod_eq_of_lt (by omega)] at hticks
    omega

theorem FirstOver.bounds (hk : FirstOver ms clock k) (h : FreeRunning rd first start clock)
    (hms : ms.toNat ≤ 4294966) : clock 0 + ms.toNat * 1000 ≤ clock (k + 1) ∧
      clock (k + 1) ≤ clock 0 + (ms.toNat + 2) * 1000 := by
  obtain ⟨hpos, hreached, hbefore⟩ := hk
  have hturn := h.turn hms hbefore (k - 1) (by omega)
  have hsampled := h.sampled (k - 1)
  rw [Nat.sub_add_cancel hpos] at hsampled
  have hreturn := h.sampled k
  have hmono := h.monotone k
  have hle := h.le (k := k)
  rw [ticks, Nat.mod_eq_of_lt (by omega)] at hreached
  omega

theorem FreeRunning.exists_firstOver (h : FreeRunning rd first start clock)
    (hms : ms.toNat ≤ 4294966) : ∃ k, FirstOver ms clock k := by
  classical
  have hex : ∃ k, 1 ≤ k ∧ ms.toNat ≤ ticks (clock k - clock 0) := by
    by_contra hnone
    obtain ⟨k, hk⟩ := h.passes (clock 0 + ms.toNat * 1000 + 1)
    have hle := h.turn hms (k := k + 1) (fun j hj _ => ?_) k (Nat.lt_succ_self k)
    · omega
    · exact Nat.not_le.1 fun hreached => hnone ⟨j, hj, hreached⟩
  refine ⟨Nat.find hex, (Nat.find_spec hex).1, (Nat.find_spec hex).2, fun j hj hlt => ?_⟩
  exact Nat.not_le.1 fun hreached => Nat.find_min hex hlt ⟨hj, hreached⟩

theorem delays_of_le (hms : ms.toNat ≤ 4294966) : Delays ms ms.toNat := by
  intro mode rd s start clock h
  obtain ⟨k, hk⟩ := h.exists_firstOver hms
  obtain ⟨fuel, s', hrun⟩ := delayMs_returns mode h hk
  obtain ⟨k', hk', hlen⟩ := delayMs_first h hrun
  refine ⟨fuel, s', hrun, ?_⟩
  rw [hlen, Nat.add_sub_cancel_left]
  exact hk'.bounds h hms

end InTime

/-! ## Never, or too early -/

section Never

variable {ms : U32} {k wanted : ℕ}

/-- A sample every microsecond, and none in the last 296 of a turn. -/
def skipping (k : ℕ) : ℕ := k + 296 * (k / 4294967000)

def sampledBy (clock : ℕ → ℕ) : Readings := fun q => 0 - BitVec.ofNat 32 (clock q.2)

theorem freeRunning_skipping : FreeRunning (sampledBy skipping) 0 0 skipping where
  counts k := by rw [sampledBy, Nat.zero_add]
  monotone k := by
    unfold skipping
    omega
  sampled k := by
    unfold skipping
    omega
  passes t := ⟨t, Nat.le_add_right _ _⟩

theorem ticks_skipping (k : ℕ) : ticks (skipping k - skipping 0) = k % 4294967000 / 1000 := by
  unfold ticks skipping
  omega

theorem FirstOver.skipping_le (hk : FirstOver ms skipping k) :
    ms.toNat ≤ 4294966 ∧ k ≤ ms.toNat * 1000 + 1 := by
  have hreached := hk.reached
  rw [ticks_skipping] at hreached
  refine ⟨by omega, Nat.not_lt.1 fun hlt => ?_⟩
  have hticks := hk.before (ms.toNat * 1000 + 1) (Nat.succ_pos _) hlt
  rw [ticks_skipping] at hticks
  omega

/-- What is waited for is right only if it is at most 4294966. -/
theorem le_of_delays (h : Delays ms wanted) : ms.toNat ≤ 4294966 ∧ wanted ≤ ms.toNat := by
  obtain ⟨fuel, s', hrun, hlo, -⟩ := h .aarch64 _ (.boot 0 0) 0 _ freeRunning_skipping
  obtain ⟨k, hk, hlen⟩ := delayMs_first freeRunning_skipping hrun
  obtain ⟨hms, hle⟩ := hk.skipping_le
  rw [hlen, Nat.add_sub_cancel_left] at hlo
  unfold skipping at hlo
  exact ⟨hms, by omega⟩

/-- With the value that was meant, or with less of it. -/
theorem delays_iff (hle : ms.toNat ≤ wanted) :
    Delays ms wanted ↔ ms.toNat = wanted ∧ wanted ≤ 4294966 := by
  constructor
  · intro h
    obtain ⟨hms, hwanted⟩ := le_of_delays h
    exact ⟨Nat.le_antisymm hle hwanted, hwanted.trans hms⟩
  · rintro ⟨rfl, h⟩
    exact delays_of_le h

end Never

/-! ## The text -/

section Text

/-- The number that a text of digits stands for. -/
def numeral (base : ℕ) (t : Tools.Menuconfig.Text) : ℕ :=
  t.foldl (fun n c => base * n + (c.toNat - '0'.toNat)) 0

/-- What `-DBOOT_LOGO_DELAY_MS=` hands to `delay_ms`, if C has a constant of these digits. A zero in
front makes it octal, and the parameter has 32 bits. -/
def cConstant (t : Tools.Menuconfig.Text) : Option U32 :=
  if t = [] ∨ ¬t.all Char.isDigit then none
  else if t.head? = some '0' then
    if t.all (· ≤ '7') then some (BitVec.ofNat 32 (numeral 8 t)) else none
  else some (BitVec.ofNat 32 (numeral 10 t))

variable {t : Tools.Menuconfig.Text} {base : ℕ} {c : Char}

theorem numeral_snoc :
    numeral base (t ++ [c]) = base * numeral base t + (c.toNat - '0'.toNat) := by
  rw [numeral, List.foldl_append]
  rfl

theorem octal_le : numeral 8 t ≤ numeral 10 t := by
  induction t using List.reverseRecOn with
  | nil => exact Nat.le_refl 0
  | append_singleton t c ih =>
    rw [numeral_snoc, numeral_snoc]
    omega

/-- One digit after the zeros. -/
theorem octal_eq (h : numeral 10 t < 8) : numeral 8 t = numeral 10 t := by
  induction t using List.reverseRecOn with
  | nil => rfl
  | append_singleton t c ih =>
    rw [numeral_snoc] at h ⊢
    rw [ih (by omega), numeral_snoc]
    omega

theorem octal_lt (ht : t.all (· ≤ '7')) (h : 8 ≤ numeral 10 t) : numeral 8 t < numeral 10 t := by
  obtain rfl | ⟨t, c, rfl⟩ := List.eq_nil_or_concat' t
  · cases h
  · rw [List.all_append, Bool.and_eq_true] at ht
    have hc : c.toNat ≤ 55 := by simpa [Char.le_def, UInt32.le_iff_toNat_le] using ht.2
    have hle := octal_le (t := t)
    have hzero : '0'.toNat = 48 := rfl
    rw [numeral_snoc] at h
    rw [numeral_snoc, numeral_snoc]
    omega

theorem le_seven (ht : t.all Char.isDigit) (h : numeral 10 t < 8) : t.all (· ≤ '7') := by
  induction t using List.reverseRecOn with
  | nil => rfl
  | append_singleton t c ih =>
    rw [List.all_append, Bool.and_eq_true] at ht ⊢
    rw [numeral_snoc] at h
    have hzero : '0'.toNat = 48 := rfl
    refine ⟨ih ht.1 (by omega), ?_⟩
    have hc : c.toNat ≤ 55 := by omega
    simpa [Char.le_def, UInt32.le_iff_toNat_le] using hc

theorem toNat_le_of_cConstant {ms : U32} (h : cConstant t = some ms) :
    ms.toNat ≤ numeral 10 t := by
  unfold cConstant at h
  split_ifs at h
  · obtain rfl := Option.some.inj h
    exact (Nat.mod_le _ _).trans octal_le
  · obtain rfl := Option.some.inj h
    exact Nat.mod_le _ _

/-- What can be waited for: a number that the counter reaches, and that C reads as a decimal one. -/
structure InRange (t : Tools.Menuconfig.Text) : Prop where
  digits : t.all Char.isDigit
  decimal : t.head? = some '0' → numeral 10 t < 8
  small : numeral 10 t ≤ 4294966

theorem InRange.cConstant (h : InRange t) (hne : t ≠ []) :
    cConstant t = some (BitVec.ofNat 32 (numeral 10 t)) := by
  rw [Display.cConstant, if_neg (not_or.2 ⟨hne, not_not.2 h.digits⟩)]
  split_ifs with hzero hseven
  · rw [octal_eq (h.decimal hzero)]
  · exact absurd (le_seven h.digits (h.decimal hzero)) hseven
  · rfl

/-- A constant that is the decimal number. -/
theorem inRange_of_cConstant {ms : U32} (h : Display.cConstant t = some ms)
    (hms : ms.toNat = numeral 10 t) (hsmall : numeral 10 t ≤ 4294966) : InRange t := by
  unfold Display.cConstant at h
  split_ifs at h with hdigits hzero hseven
  · obtain rfl := Option.some.inj h
    refine ⟨not_not.1 (not_or.1 hdigits).2, fun _ => Nat.not_le.1 fun hle => ?_, hsmall⟩
    have hlt := octal_lt hseven hle
    have hmod : numeral 8 t % 2 ^ 32 ≤ numeral 8 t := Nat.mod_le _ _
    rw [BitVec.toNat_ofNat] at hms
    omega
  · exact ⟨not_not.1 (not_or.1 hdigits).2, fun h => absurd h hzero, hsmall⟩

/-- The delay that is built from the text takes as long as the text says. -/
def BootDelay (t : Tools.Menuconfig.Text) : Prop :=
  ∃ ms, cConstant t = some ms ∧ Delays ms (numeral 10 t)

end Text

section Main

open Tools Tools.Menuconfig

variable {u : PyText.CharClasses} {cfg : Cfg}

theorem ne_nil_of_validate (h : validate u cfg .bootLogoDelayMs = none) :
    cfg .bootLogoDelayMs ≠ [] := by
  intro hnil
  simp [validate, hnil, Name.kind] at h

/-- **The boot delay**: of the values that `menuconfig.py` accepts, exactly those in range are
waited for in time. -/
theorem bootDelay_iff (h : validate u cfg .bootLogoDelayMs = none) :
    BootDelay (cfg .bootLogoDelayMs) ↔ InRange (cfg .bootLogoDelayMs) := by
  have hne := ne_nil_of_validate h
  constructor
  · rintro ⟨ms, hms, hdelays⟩
    obtain ⟨heq, hsmall⟩ := (delays_iff (toNat_le_of_cConstant hms)).1 hdelays
    exact inRange_of_cConstant hms heq hsmall
  · intro hrange
    have hsmall := hrange.small
    have htoNat : (BitVec.ofNat 32 (numeral 10 (cfg .bootLogoDelayMs))).toNat =
        numeral 10 (cfg .bootLogoDelayMs) := by
      rw [BitVec.toNat_ofNat]
      omega
    exact ⟨_, hrange.cConstant hne, (delays_iff (Nat.le_of_eq htoNat)).2 ⟨htoNat, hsmall⟩⟩

/-- The value that `menuconfig.py` starts with. -/
theorem bootDelay_default : BootDelay (Name.default .bootLogoDelayMs) :=
  (bootDelay_iff (show validate .ascii Name.default .bootLogoDelayMs = none from rfl)).2
    ⟨by decide, fun h => absurd h (by decide), by decide⟩

/-- Seventy-two minutes are accepted, and the delay never ends. -/
theorem not_bootDelay : ¬∀ (u : PyText.CharClasses) (cfg : Cfg),
    validate u cfg .bootLogoDelayMs = none → BootDelay (cfg .bootLogoDelayMs) := by
  intro h
  obtain ⟨ms, hms, hdelays⟩ := h .ascii
    (Function.update Name.default .bootLogoDelayMs "4294968".toList) rfl
  obtain rfl := Option.some.inj (hms.symm.trans (show _ = some 4294968 from rfl))
  exact absurd (le_of_delays hdelays).1 (by decide)

end Main

end Gec6818Bl1.Display

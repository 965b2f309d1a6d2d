import SynOSStudio.Dictation.AudioCapture

/-!
# The stretches of speech

Which frames make up the phrases depends on the flags alone. A run of four voiced frames begins a
phrase that reaches back at most ten frames. Frames of a run are lost only where a phrase is cut at
its greatest length inside the run and too little of it is left to begin the next phrase.
-/

namespace Dictation.Capture

/-- The capture without the audio: the frames are counted. -/
structure Shape where
  count : ℕ
  /-- The frames up to the last end of a phrase. -/
  base : ℕ
  /-- The voiced frames in a row. -/
  onset : ℕ
  start : Option ℕ
  lastVoice : ℕ
  finished : List (ℕ × ℕ)

def frameSeconds : ℚ := 4 / 125

section Machine

variable (settings : Settings)

/-- The end of a phrase behind its last frame. -/
def Settings.Completes (start lastVoice count : ℕ) : Prop :=
  settings.silenceSeconds ≤ (count - lastVoice : ℕ) * frameSeconds ∨
    settings.maxPhraseBytes ≤ (count - start) * FRAME_BYTES

instance (start lastVoice count : ℕ) : Decidable (settings.Completes start lastVoice count) :=
  inferInstanceAs (Decidable (_ ∨ _))

def Shape.step (shape : Shape) (voiced : Bool) : Shape :=
  let count := shape.count + 1
  let onset := if voiced then shape.onset + 1 else 0
  match shape.start with
  | none =>
    if 4 ≤ onset then
      ⟨count, shape.base, onset, some (max shape.base (count - 10)), count, shape.finished⟩
    else ⟨count, shape.base, onset, none, shape.lastVoice, shape.finished⟩
  | some start =>
    let lastVoice := if voiced then count else shape.lastVoice
    if settings.Completes start lastVoice count then
      ⟨count, count, 0, none, 0, shape.finished ++ [(start, count)]⟩
    else ⟨count, shape.base, onset, some start, lastVoice, shape.finished⟩

def Shape.initial : Shape := ⟨0, 0, 0, none, 0, []⟩

def shapeOf (flags : List Bool) : Shape :=
  flags.foldl (Shape.step settings) Shape.initial

/-- The stretches of a capture that is stopped here. -/
def Shape.stretches (shape : Shape) : List (ℕ × ℕ) :=
  shape.finished ++ (shape.start.map fun start => (start, shape.count)).toList

/-- The next frame fills the phrase. -/
def Shape.AboutToSplit (shape : Shape) : Prop :=
  ∃ start, shape.start = some start ∧
    settings.maxPhraseBytes ≤ (shape.count + 1 - start) * FRAME_BYTES

end Machine

/-- Four voiced frames in a row. -/
def Voiced4 (flags : List Bool) (j : ℕ) : Prop :=
  ∀ m, j ≤ m → m < j + 4 → flags[m]? = some true

/-- The frame belongs to a run of at least four voiced frames. -/
def InRun (flags : List Bool) (i : ℕ) : Prop :=
  ∃ j, j ≤ i ∧ i < j + 4 ∧ Voiced4 flags j

/-- A frame and the next one belong to a run of at least four voiced frames, and it does not go on
long enough to begin a phrase, nor does another one within ten frames. -/
def CutsRun (flags : List Bool) (k : ℕ) : Prop :=
  (∃ j, j ≤ k ∧ k + 1 < j + 4 ∧ Voiced4 flags j) ∧
    ∀ q, k + 1 ≤ q → q + 4 ≤ k + 11 → ¬ Voiced4 flags q

section Steps

variable {settings : Settings} {flags : List Bool} {shape : Shape} {voiced : Bool}
  {start i k n : ℕ}

theorem shapeOf_concat (settings : Settings) (flags : List Bool) (voiced : Bool) :
    shapeOf settings (flags ++ [voiced]) = (shapeOf settings flags).step settings voiced := by
  rw [shapeOf, List.foldl_concat]
  rfl

/-- What a step can do. -/
theorem step_cases (settings : Settings) (shape : Shape) (voiced : Bool) :
    (shape.start = none ∧ (voiced = false ∨ shape.onset < 3) ∧
      shape.step settings voiced = ⟨shape.count + 1, shape.base,
        if voiced then shape.onset + 1 else 0, none, shape.lastVoice, shape.finished⟩) ∨
    (shape.start = none ∧ voiced = true ∧ 3 ≤ shape.onset ∧
      shape.step settings voiced = ⟨shape.count + 1, shape.base, shape.onset + 1,
        some (max shape.base (shape.count - 9)), shape.count + 1, shape.finished⟩) ∨
    (∃ start, shape.start = some start ∧
      settings.Completes start (if voiced then shape.count + 1 else shape.lastVoice)
        (shape.count + 1) ∧
      shape.step settings voiced = ⟨shape.count + 1, shape.count + 1, 0, none, 0,
        shape.finished ++ [(start, shape.count + 1)]⟩) ∨
    ∃ start, shape.start = some start ∧
      ¬ settings.Completes start (if voiced then shape.count + 1 else shape.lastVoice)
        (shape.count + 1) ∧
      shape.step settings voiced = ⟨shape.count + 1, shape.base,
        if voiced then shape.onset + 1 else 0, some start,
        if voiced then shape.count + 1 else shape.lastVoice, shape.finished⟩ := by
  cases hstart : shape.start with
  | none =>
    by_cases honset : voiced = true ∧ 3 ≤ shape.onset
    · obtain ⟨rfl, hthree⟩ := honset
      refine .inr (.inl ⟨rfl, rfl, hthree, ?_⟩)
      have hfour : 4 ≤ shape.onset + 1 := by omega
      simp [Shape.step, hstart, hfour]
    · refine .inl ⟨rfl, ?_, ?_⟩
      · cases voiced with
        | false => exact .inl rfl
        | true => exact .inr (not_le.mp fun hthree => honset ⟨rfl, hthree⟩)
      · have hfour : ¬ 4 ≤ if voiced = true then shape.onset + 1 else 0 := by
          split
          · next hvoiced =>
            have hless := not_le.mp fun hthree => honset ⟨hvoiced, hthree⟩
            omega
          · decide
        simp [Shape.step, hstart, hfour]
  | some start =>
    by_cases hcompletes : settings.Completes start
        (if voiced then shape.count + 1 else shape.lastVoice) (shape.count + 1)
    · refine .inr (.inr (.inl ⟨start, rfl, hcompletes, ?_⟩))
      simp only [Shape.step, hstart]
      rw [if_pos hcompletes]
    · refine .inr (.inr (.inr ⟨start, rfl, hcompletes, ?_⟩))
      simp only [Shape.step, hstart]
      rw [if_neg hcompletes]

theorem completes_of_voiced (h : settings.Completes start (shape.count + 1) (shape.count + 1)) :
    settings.maxPhraseBytes ≤ (shape.count + 1 - start) * FRAME_BYTES := by
  refine h.resolve_left (not_le.mpr ?_)
  rw [Nat.sub_self, Nat.cast_zero, zero_mul]
  exact settings.silence_pos

/-- What holds of the shape behind the first frames of a capture. -/
structure Fits (settings : Settings) (flags : List Bool) (shape : Shape) : Prop where
  eq : shape = shapeOf settings (flags.take shape.count)
  base_le : shape.base ≤ shape.count
  ordered : shape.finished.Pairwise fun p q => p.2 ≤ q.1
  within : ∀ p ∈ shape.finished, p.1 < p.2 ∧ p.2 ≤ shape.base ∧
    (p.2 - p.1) * FRAME_BYTES ≤ settings.maxPhraseBytes + FRAME_BYTES
  /-- The frames of the onset are voiced. -/
  onset : shape.start = none → shape.base + shape.onset ≤ shape.count ∧
    ∀ m, shape.count - shape.onset ≤ m → m < shape.count → flags[m]? = some true
  /-- No more voiced frames stand at the end than there are in the onset. -/
  longest : shape.start = none → ∀ j, shape.base ≤ j →
    (∀ m, j ≤ m → m < shape.count → flags[m]? = some true) → shape.count ≤ j + shape.onset
  waiting : shape.start = none → ∀ j, shape.base ≤ j → j + 4 ≤ shape.count → ¬ Voiced4 flags j
  speaking : ∀ start, shape.start = some start → shape.base ≤ start ∧ start < shape.count ∧
    (shape.count - start) * FRAME_BYTES < settings.maxPhraseBytes
  /-- A phrase ends with a frame that is not voiced or is cut there. -/
  cut : shape.base = 0 ∨ flags[shape.base - 1]? ≠ some true ∨
    (shapeOf settings (flags.take (shape.base - 1))).AboutToSplit settings

theorem fits_initial (settings : Settings) (flags : List Bool) :
    Fits settings flags Shape.initial where
  eq := rfl
  base_le := le_rfl
  ordered := .nil
  within := nofun
  onset _ := ⟨le_rfl, fun m _ hm => absurd hm (Nat.not_lt_zero m)⟩
  longest _ j _ _ := Nat.zero_le _
  waiting _ j _ hj := absurd hj (by simp [Shape.initial])
  speaking := nofun
  cut := .inl rfl

section Step

variable (h : Fits settings flags shape) (hvoiced : flags[shape.count]? = some voiced)

include h hvoiced

theorem Fits.eq_step : shape.step settings voiced =
    shapeOf settings (flags.take (shape.count + 1)) := by
  rw [List.take_add_one, hvoiced, Option.toList_some, shapeOf_concat, ← h.eq]

theorem Fits.wait (hstart : shape.start = none) (honset : voiced = false ∨ shape.onset < 3)
    (hstep : shape.step settings voiced = ⟨shape.count + 1, shape.base,
      if voiced then shape.onset + 1 else 0, none, shape.lastVoice, shape.finished⟩) :
    Fits settings flags (shape.step settings voiced) := by
  have heq := h.eq_step hvoiced
  obtain ⟨hle, hrow⟩ := h.onset hstart
  have hbase := h.base_le
  rw [hstep] at heq ⊢
  refine ⟨heq, hbase.trans (Nat.le_succ _), h.ordered, h.within, fun _ => ?_, fun _ j hj hall => ?_,
    fun _ j hj hend hfour => ?_, nofun, h.cut⟩
  · cases voiced with
    | false =>
      refine ⟨hbase.trans (Nat.le_succ _), fun m hm hlt => ?_⟩
      simp only [Bool.false_eq_true, if_false] at hm hlt
      omega
    | true =>
      simp only [if_true]
      refine ⟨by omega, fun m hm hlt => ?_⟩
      rcases Nat.lt_succ_iff_lt_or_eq.mp hlt with hlt | rfl
      · exact hrow m (by omega) hlt
      · exact hvoiced
  · rcases Nat.lt_or_ge shape.count j with hlt | hge
    · simp only
      omega
    · have hlast := hall shape.count hge (Nat.lt_succ_self _)
      rw [hvoiced] at hlast
      obtain rfl := Option.some.inj hlast
      have hlong := h.longest hstart j hj fun m hm hlt =>
        hall m hm (hlt.trans (Nat.lt_succ_self _))
      simp only [if_true]
      omega
  · simp only at hj hend
    rcases Nat.lt_or_ge shape.count (j + 4) with hlt | hge
    · have hcount : shape.count = j + 3 := by omega
      have hlong := h.longest hstart j hj fun m hm hlt => hfour m hm (by omega)
      have hlast := hfour shape.count (by omega) (by omega)
      rw [hvoiced] at hlast
      rcases honset with rfl | honset
      · cases hlast
      · omega
    · exact h.waiting hstart j hj hge hfour

theorem Fits.begin (hstep : shape.step settings voiced = ⟨shape.count + 1, shape.base,
      shape.onset + 1, some (max shape.base (shape.count - 9)), shape.count + 1, shape.finished⟩) :
    Fits settings flags (shape.step settings voiced) := by
  have heq := h.eq_step hvoiced
  have hbase := h.base_le
  have hlimit := settings.preRoll_lt
  rw [hstep] at heq ⊢
  refine ⟨heq, hbase.trans (Nat.le_succ _), h.ordered, h.within, nofun, nofun, nofun,
    fun start hsome => ?_, h.cut⟩
  obtain rfl := Option.some.inj hsome
  simp only [FRAME_BYTES, preRollLimit] at hlimit ⊢
  omega

theorem Fits.finish {start : ℕ} (hstart : shape.start = some start)
    (hcompletes : settings.Completes start (if voiced then shape.count + 1 else shape.lastVoice)
      (shape.count + 1))
    (hstep : shape.step settings voiced = ⟨shape.count + 1, shape.count + 1, 0, none, 0,
        shape.finished ++ [(start, shape.count + 1)]⟩) :
    Fits settings flags (shape.step settings voiced) := by
  have heq := h.eq_step hvoiced
  have hbase := h.base_le
  obtain ⟨hle, hlt, hsize⟩ := h.speaking start hstart
  rw [hstep] at heq ⊢
  refine ⟨heq, le_rfl, ?_, ?_, fun _ => ⟨le_rfl, fun m hm hlt => ?_⟩, fun _ j hj _ => ?_,
    fun _ j hj hend => ?_, nofun, ?_⟩
  · refine List.pairwise_append.mpr ⟨h.ordered, List.pairwise_singleton _ _, fun p hp q hq => ?_⟩
    rw [List.mem_singleton.mp hq]
    exact (h.within p hp).2.1.trans hle
  · intro p hp
    simp only
    rcases List.mem_append.mp hp with hp | hp
    · obtain ⟨hpos, hend, hlength⟩ := h.within p hp
      exact ⟨hpos, by omega, hlength⟩
    · rw [List.mem_singleton.mp hp]
      simp only [FRAME_BYTES] at hsize ⊢
      omega
  · simp only at hm hlt
    omega
  · simp only at hj ⊢
    omega
  · simp only at hj hend
    omega
  · simp only [Nat.add_sub_cancel]
    cases voiced with
    | false => exact .inr (.inl (by rw [hvoiced]; decide))
    | true =>
      refine .inr (.inr ⟨start, ?_, ?_⟩)
      · rw [← h.eq, hstart]
      · rw [← h.eq]
        exact completes_of_voiced hcompletes

theorem Fits.goOn {start : ℕ} (hstart : shape.start = some start)
    (hcompletes : ¬ settings.Completes start
      (if voiced then shape.count + 1 else shape.lastVoice) (shape.count + 1))
    (hstep : shape.step settings voiced = ⟨shape.count + 1, shape.base,
        if voiced then shape.onset + 1 else 0, some start,
        if voiced then shape.count + 1 else shape.lastVoice, shape.finished⟩) :
    Fits settings flags (shape.step settings voiced) := by
  have heq := h.eq_step hvoiced
  obtain ⟨hle, hlt, -⟩ := h.speaking start hstart
  rw [hstep] at heq ⊢
  refine ⟨heq, h.base_le.trans (Nat.le_succ _), h.ordered, h.within, nofun, nofun, nofun,
    fun start' hsome => ?_, h.cut⟩
  obtain rfl := Option.some.inj hsome
  exact ⟨hle, hlt.trans (Nat.lt_succ_self _), not_le.mp fun hfull => hcompletes (.inr hfull)⟩

theorem Fits.step : Fits settings flags (shape.step settings voiced) := by
  rcases step_cases settings shape voiced with ⟨hstart, honset, hstep⟩ |
    ⟨hstart, -, -, hstep⟩ | ⟨start, hstart, hcompletes, hstep⟩ |
    ⟨start, hstart, hcompletes, hstep⟩
  · exact h.wait hvoiced hstart honset hstep
  · exact h.begin hvoiced hstep
  · exact h.finish hvoiced hstart hcompletes hstep
  · exact h.goOn hvoiced hstart hcompletes hstep

end Step

theorem count_step (settings : Settings) (shape : Shape) (voiced : Bool) :
    (shape.step settings voiced).count = shape.count + 1 := by
  rcases step_cases settings shape voiced with ⟨-, -, hstep⟩ | ⟨-, -, -, hstep⟩ |
    ⟨start, -, -, hstep⟩ | ⟨start, -, -, hstep⟩
  all_goals rw [hstep]

/-- Steps that keep a property of the shapes of a capture. -/
theorem shape_induction (settings : Settings) (flags : List Bool) (P : Shape → Prop)
    (hfirst : P (shapeOf settings (flags.take k)))
    (hstep : ∀ shape voiced, k ≤ shape.count → Fits settings flags shape →
      flags[shape.count]? = some voiced → P shape → P (shape.step settings voiced))
    (hfits : Fits settings flags (shapeOf settings (flags.take k)))
    (hcount : (shapeOf settings (flags.take k)).count = k) (hk : k ≤ n) (hn : n ≤ flags.length) :
    Fits settings flags (shapeOf settings (flags.take n)) ∧
      (shapeOf settings (flags.take n)).count = n ∧ P (shapeOf settings (flags.take n)) := by
  induction n, hk using Nat.le_induction with
  | base => exact ⟨hfits, hcount, hfirst⟩
  | succ n hk ih =>
    obtain ⟨hfits, hcount, hP⟩ := ih (Nat.le_of_succ_le hn)
    have hvoiced : flags[(shapeOf settings (flags.take n)).count]? = some (flags.get ⟨n, hn⟩) := by
      rw [hcount]
      exact List.getElem?_eq_getElem hn
    have heq := hfits.eq_step hvoiced
    rw [hcount] at heq
    rw [← heq]
    exact ⟨hfits.step hvoiced, by rw [count_step, hcount],
      hstep _ _ (by rw [hcount]; exact hk) hfits hvoiced hP⟩

theorem fits_take (settings : Settings) (flags : List Bool) (hn : n ≤ flags.length) :
    Fits settings flags (shapeOf settings (flags.take n)) ∧
      (shapeOf settings (flags.take n)).count = n := by
  have hzero : Fits settings flags (shapeOf settings (flags.take 0)) := by
    rw [List.take_zero]
    exact fits_initial settings flags
  have hall := shape_induction settings flags (fun _ => True) trivial
    (fun _ _ _ _ _ _ => trivial) hzero (by rw [List.take_zero]; rfl) (Nat.zero_le n) hn
  exact ⟨hall.1, hall.2.1⟩

/-! ## Frames of a run -/

/-- The first frame that can still come into a phrase. -/
def Shape.visible (shape : Shape) : ℕ :=
  match shape.start with
  | none => max shape.base (shape.count - 10)
  | some start => start

def Covered (stretches : List (ℕ × ℕ)) (i : ℕ) : Prop :=
  ∃ p ∈ stretches, p.1 ≤ i ∧ i < p.2

/-- No frame of a run stands behind the last phrase where ten frames begin no other one. -/
theorem Fits.not_inRun (h : Fits settings flags shape) (hstart : shape.start = none)
    (hcuts : ∀ k, (shapeOf settings (flags.take k)).AboutToSplit settings → ¬ CutsRun flags k)
    (hi : shape.base ≤ i) (hnear : ∀ j, j ≤ i → Voiced4 flags j → j + 4 ≤ shape.count)
    (hfar : ∀ q, q + 4 ≤ shape.base + 10 → Voiced4 flags q → q + 4 ≤ shape.count) :
    ¬ InRun flags i := by
  rintro ⟨j, hj, hlt, hfour⟩
  rcases Nat.lt_or_ge j shape.base with hbefore | hbehind
  · rcases h.cut with hzero | hquiet | hsplit
    · omega
    · exact hquiet (hfour _ (by omega) (by omega))
    · refine hcuts _ hsplit ⟨⟨j, by omega, by omega, hfour⟩, fun q hq hend hother => ?_⟩
      have hbase : shape.base ≤ q := by omega
      exact h.waiting hstart q hbase (hfar q (by omega) hother) hother
  · exact h.waiting hstart j hbehind (hnear j hj hfour) hfour

theorem Fits.coverage_step (h : Fits settings flags shape)
    (hcuts : ∀ k, (shapeOf settings (flags.take k)).AboutToSplit settings → ¬ CutsRun flags k)
    (hcovered : ∀ i < shape.count, InRun flags i → Covered shape.finished i ∨ shape.visible ≤ i) :
    ∀ i < (shape.step settings voiced).count, InRun flags i →
      Covered (shape.step settings voiced).finished i ∨
        (shape.step settings voiced).visible ≤ i := by
  intro i hi hrun
  have hbase := h.base_le
  -- A frame that nobody keeps any longer belongs to no run.
  have hkeep : shape.start = none → Covered shape.finished i ∨
      max shape.base (shape.count - 9) ≤ i := by
    intro hstart
    rw [count_step] at hi
    by_cases hlate : shape.count - 9 ≤ i ∧ shape.base ≤ i
    · exact .inr (max_le hlate.2 hlate.1)
    · rcases hcovered i (by omega) hrun with hcovered | hvisible
      · exact .inl hcovered
      · simp only [Shape.visible, hstart] at hvisible
        have hle : shape.base ≤ i := (le_max_left _ _).trans hvisible
        exact absurd hrun (h.not_inRun hstart hcuts hle (fun j hj _ => by omega)
          fun q hq _ => by omega)
  rcases step_cases settings shape voiced with ⟨hstart, -, hstep⟩ |
    ⟨hstart, -, -, hstep⟩ | ⟨start, hstart, -, hstep⟩ | ⟨start, hstart, -, hstep⟩
  · rw [hstep]
    refine (hkeep hstart).imp_right fun hvisible => ?_
    simp only [Shape.visible]
    omega
  · rw [hstep]
    exact hkeep hstart
  · have hlast : i < shape.count + 1 := by rwa [count_step] at hi
    obtain ⟨-, hlt, -⟩ := h.speaking start hstart
    rw [hstep]
    by_cases hstarted : start ≤ i
    · exact .inl ⟨(start, shape.count + 1), by simp, hstarted, hlast⟩
    · rcases hcovered i (by omega) hrun with ⟨p, hp, hin⟩ | hvisible
      · exact .inl ⟨p, List.mem_append_left _ hp, hin⟩
      · simp only [Shape.visible, hstart] at hvisible
        exact absurd hvisible hstarted
  · have hlast : i < shape.count + 1 := by rwa [count_step] at hi
    obtain ⟨-, hlt, -⟩ := h.speaking start hstart
    rw [hstep]
    by_cases hstarted : start ≤ i
    · exact .inr hstarted
    · refine .inl ((hcovered i (by omega) hrun).resolve_right fun hvisible => ?_)
      simp only [Shape.visible, hstart] at hvisible
      exact hstarted hvisible

/-- Every frame of a run is in a phrase, if no cut goes through a run. -/
theorem run_covered (settings : Settings)
    (hcuts : ∀ k, (shapeOf settings (flags.take k)).AboutToSplit settings → ¬ CutsRun flags k)
    (hi : i < flags.length) (hrun : InRun flags i) :
    Covered (shapeOf settings flags).stretches i := by
  have hzero := fits_take settings flags (Nat.zero_le _)
  obtain ⟨hfits, hcount, hcovered⟩ := shape_induction settings flags
    (fun shape => ∀ i < shape.count, InRun flags i →
      Covered shape.finished i ∨ shape.visible ≤ i)
    (fun i hi => absurd hi (by rw [hzero.2]; exact Nat.not_lt_zero i))
    (fun shape voiced _ h _ hcovered => h.coverage_step hcuts hcovered)
    hzero.1 hzero.2 (Nat.zero_le _) (le_refl flags.length)
  rw [List.take_length] at hfits hcount hcovered
  rcases hcovered i (hcount ▸ hi) hrun with ⟨p, hp, hin⟩ | hvisible
  · exact ⟨p, List.mem_append_left _ hp, hin⟩
  · cases hstart : (shapeOf settings flags).start with
    | none =>
      have hend : ∀ j, Voiced4 flags j → j + 4 ≤ (shapeOf settings flags).count := by
        intro j hfour
        have hlast := (List.getElem?_eq_some_iff.mp (hfour (j + 3) (by omega) (by omega))).1
        omega
      simp only [Shape.visible, hstart] at hvisible
      have hbase : (shapeOf settings flags).base ≤ i := (le_max_left _ _).trans hvisible
      exact absurd hrun (hfits.not_inRun hstart hcuts hbase (fun j _ => hend j) fun q _ => hend q)
    | some start =>
      simp only [Shape.visible, hstart] at hvisible
      refine ⟨(start, flags.length), List.mem_append_right _ ?_, hvisible, hi⟩
      rw [hstart, hcount]
      exact List.mem_singleton_self _

/-! ## Frames that are lost -/

/-- The frame is behind the finished phrases and in front of what can come into the next one, or
it still is the first one behind a phrase. -/
def Shape.Misses (shape : Shape) (i : ℕ) : Prop :=
  ¬ Covered shape.finished i ∧ (shape.start = none ∧ shape.base = i ∧ shape.count ≤ i + 10 ∨
    i < shape.visible)

theorem not_covered_concat {stretches : List (ℕ × ℕ)} {p : ℕ × ℕ} (h : ¬ Covered stretches i)
    (hp : p.1 ≤ i → p.2 ≤ i) : ¬ Covered (stretches ++ [p]) i := by
  rintro ⟨q, hq, hin⟩
  rcases List.mem_append.mp hq with hq | hq
  · exact h ⟨q, hq, hin⟩
  · rw [List.mem_singleton.mp hq] at hin
    exact absurd (hp hin.1) (not_le.mpr hin.2)

/-- The cut of a run leaves its next frame behind. -/
theorem Fits.misses_cut (h : Fits settings flags shape) (voiced : Bool)
    (hsplit : shape.AboutToSplit settings) :
    (shape.step settings voiced).Misses (shape.count + 1) := by
  obtain ⟨start, hstart, hfull⟩ := hsplit
  have hbase := h.base_le
  rcases step_cases settings shape voiced with ⟨hnone, -, -⟩ |
    ⟨hnone, -, -, -⟩ | ⟨start', hsome, -, hstep⟩ | ⟨start', hsome, hnot, -⟩
  · cases hnone.symm.trans hstart
  · cases hnone.symm.trans hstart
  · rw [hstep]
    refine ⟨not_covered_concat ?_ fun _ => le_rfl, .inl ⟨rfl, rfl, Nat.le_add_right _ _⟩⟩
    rintro ⟨p, hp, -, hlt⟩
    have hend := (h.within p hp).2.1
    omega
  · obtain rfl := Option.some.inj (hsome.symm.trans hstart)
    exact absurd (.inr hfull) hnot

theorem Fits.misses_step (h : Fits settings flags shape)
    (hvoiced : flags[shape.count]? = some voiced) (hi : i ≤ shape.count)
    (hshort : ∀ q, i ≤ q → q + 4 ≤ i + 10 → ¬ Voiced4 flags q) (hmisses : shape.Misses i) :
    (shape.step settings voiced).Misses i := by
  obtain ⟨hfinished, hwhere⟩ := hmisses
  rcases step_cases settings shape voiced with ⟨hstart, -, hstep⟩ |
    ⟨hstart, rfl, hthree, hstep⟩ | ⟨start, hstart, -, hstep⟩ | ⟨start, hstart, -, hstep⟩
  · rw [hstep]
    refine ⟨hfinished, ?_⟩
    simp only [Shape.visible, hstart] at hwhere ⊢
    simp only [true_and] at hwhere ⊢
    omega
  · rw [hstep]
    refine ⟨hfinished, .inr ?_⟩
    simp only [Shape.visible, hstart] at hwhere ⊢
    simp only [true_and] at hwhere
    by_contra hlate
    -- Otherwise the onset is a run within ten frames.
    obtain ⟨hbehind, hrow⟩ := h.onset hstart
    refine hshort (shape.count - 3) (by omega) (by omega) fun m hm hlt => ?_
    rcases Nat.lt_or_ge m shape.count with hbefore | hlast
    · exact hrow m (by omega) hbefore
    · have heq : m = shape.count := by omega
      rw [heq]
      exact hvoiced
  · rw [hstep]
    obtain ⟨-, hlt, -⟩ := h.speaking start hstart
    simp only [Shape.visible, hstart] at hwhere
    have hless : i < start := hwhere.resolve_left (by simp)
    refine ⟨not_covered_concat hfinished fun hle => absurd hle (not_le.mpr hless), .inr ?_⟩
    simp only [Shape.visible]
    omega
  · rw [hstep]
    simp only [Shape.visible, hstart] at hwhere
    exact ⟨hfinished, .inr (hwhere.resolve_left (by simp))⟩

theorem not_covered_of_cut (settings : Settings)
    (hsplit : (shapeOf settings (flags.take k)).AboutToSplit settings) (hcuts : CutsRun flags k) :
    ¬ Covered (shapeOf settings flags).stretches (k + 1) := by
  obtain ⟨⟨j, hj, hlt, hfour⟩, hshort⟩ := hcuts
  have hlast := (List.getElem?_eq_some_iff.mp (hfour (k + 1) (by omega) hlt)).1
  obtain ⟨hfits, hcount⟩ := fits_take settings flags (show k ≤ flags.length by omega)
  have hvoiced : flags[(shapeOf settings (flags.take k)).count]? = some true := by
    rw [hcount]
    exact hfour k hj (by omega)
  have hnext := hfits.misses_cut true hsplit
  rw [hfits.eq_step hvoiced, hcount] at hnext
  obtain ⟨hfitsNext, hcountNext⟩ :=
    fits_take settings flags (show k + 1 ≤ flags.length by omega)
  obtain ⟨hfitsEnd, hcountEnd, hmisses, hwhere⟩ := shape_induction settings flags
    (fun shape => shape.Misses (k + 1)) hnext
    (fun shape voiced hk h hv => h.misses_step hv hk fun q hq hend => hshort q hq (by omega))
    hfitsNext hcountNext (by omega) (le_refl flags.length)
  rw [List.take_length] at hfitsEnd hcountEnd hmisses hwhere
  rintro ⟨p, hp, hin⟩
  rcases List.mem_append.mp hp with hp | hp
  · exact hmisses ⟨p, hp, hin⟩
  · cases hstart : (shapeOf settings flags).start with
    | none =>
      rw [hstart] at hp
      cases hp
    | some start =>
      simp only [Shape.visible, hstart] at hwhere
      have hless : k + 1 < start := hwhere.resolve_left (by simp)
      rw [hstart] at hp
      rw [List.mem_singleton.mp hp] at hin
      exact absurd hin.1 (not_le.mpr hless)

end Steps

end Dictation.Capture

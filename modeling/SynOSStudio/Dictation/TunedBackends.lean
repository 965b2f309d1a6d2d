import SynOSStudio.Dictation.BackendTuning

/-!
# The backend that is chosen

A probe is sound if every request ran on its backend with a text, and equal requests with equal
texts. What a probe leaves depends on that alone, so the exits of failed candidates change nothing
but the time that is spent.
-/

namespace Dictation.Tuning

-- The numbers that times are multiplied by.
local instance atLeastTwo_two : Nat.AtLeastTwo 2 := ⟨le_refl 2⟩

local instance atLeastTwo_three : Nat.AtLeastTwo 3 := ⟨Nat.le_succ 2⟩

local instance atLeastTwo_thousand : Nat.AtLeastTwo 1000 := ⟨by decide⟩

section Probes

variable {Audio : Type} (normalized : Text → Text) (engine : Probe → ℕ → Audio → Reply)

/-- The text of a request that ran on the backend of the probe, if there is any. -/
def answer (p : Probe) (audios : List Audio) (i : ℕ) : Option Text :=
  audios[i]?.bind fun audio => (engine p i audio).result.bind fun reply =>
    if reply.2 = some p.backend ∧ normalized reply.1 ≠ [] then some (normalized reply.1) else none

def warmTime (p : Probe) (audios : List Audio) (i : ℕ) : ℚ≥0 :=
  (audios[i]?.map fun audio => (engine p i audio).seconds * 1000).getD 0

def warmTimes (p : Probe) (audios : List Audio) : List ℚ≥0 :=
  (List.range' 1 (audios.length - 1)).map (warmTime engine p audios)

def fullOutputs (p : Probe) (audios : List Audio) : List Text :=
  (List.range audios.length).map fun i => (answer normalized engine p audios i).getD []

/-- Every request ran on the backend with a text, and the texts of repeated requests are equal. -/
structure Sound (p : Probe) (audios : List Audio) : Prop where
  answers : ∀ i < audios.length, (answer normalized engine p audios i).isSome
  cold : answer normalized engine p audios 0 = answer normalized engine p audios 1
  pairs : ∀ j, 2 * j + 2 < audios.length →
    answer normalized engine p audios (2 * j + 1) = answer normalized engine p audios (2 * j + 2)

/-- The texts of the conditions. -/
def signature (p : Probe) (audios : List Audio) : List Text :=
  firsts (fullOutputs normalized engine p audios).tail

/-- The two warm requests of the first condition take too long. -/
def Slow (p : Probe) (audios : List Audio) (t : Findings) : Prop :=
  ∃ fastest, t.fastestClean = some fastest ∧
    fastest * (3 / 2) < median ((warmTimes engine p audios).take 2)

/-- The time that requests take. -/
def cost (p : Probe) : ℕ → List Audio → ℚ≥0
  | _, [] => 0
  | i, audio :: rest =>
    (engine p i audio).seconds + (engine p i audio).overhead + cost p (i + 1) rest

end Probes

section Lists

variable {β : Type} {b : β} {l : List β} {j : ℕ}

theorem getElem?_firsts (l : List β) (j : ℕ) : (firsts l)[j]? = l[2 * j]? := by
  induction l using firsts.induct generalizing j with
  | case1 => simp [firsts]
  | case2 b => cases j <;> simp [firsts, Nat.mul_succ]
  | case3 b c rest ih =>
    cases j with
    | zero => rfl
    | succ j =>
      rw [firsts, List.getElem?_cons_succ, ih, Nat.mul_succ, List.getElem?_cons_succ,
        List.getElem?_cons_succ]

theorem repeated_iff [DecidableEq β] (l : List β) :
    repeated l = true ↔ ∀ j, 2 * j + 1 < l.length → l[2 * j]? = l[2 * j + 1]? := by
  induction l using repeated.induct with
  | case1 b c rest ih =>
    rw [repeated, Bool.and_eq_true, decide_eq_true_eq, ih]
    constructor
    · rintro ⟨heq, hrest⟩ (_ | j) hj
      · simp [heq]
      · have hlength : 2 * j + 1 < rest.length := by
          simp only [List.length_cons] at hj
          omega
        have hpair := hrest j hlength
        rwa [Nat.mul_succ, List.getElem?_cons_succ, List.getElem?_cons_succ,
          List.getElem?_cons_succ, List.getElem?_cons_succ]
    · intro h
      refine ⟨by simpa using h 0 (by simp), fun j hj => ?_⟩
      have hpair := h (j + 1) (by simp only [List.length_cons]; omega)
      rwa [Nat.mul_succ, List.getElem?_cons_succ, List.getElem?_cons_succ,
        List.getElem?_cons_succ, List.getElem?_cons_succ] at hpair
  | case2 l hshort =>
    refine iff_of_true ?_ fun j hj => ?_
    · rw [repeated]
      exact hshort
    · match l with
      | [] => simp at hj
      | [b] => simp at hj
      | b :: c :: rest => exact absurd rfl (hshort b c rest)

end Lists

/-! ## One probe -/

section Requests

variable {Audio : Type} {normalized : Text → Text} {engine : Probe → ℕ → Audio → Reply}
  {p : Probe} {audios rest : List Audio} {audio : Audio} {t : Findings} {s s' : Progress}
  {i k : ℕ} {text : Text} {eager : Bool} {now : ℚ≥0} {backend : Option Backend}

/-- The progress of a probe behind its first requests. -/
structure Tracks (normalized : Text → Text) (engine : Probe → ℕ → Audio → Reply) (p : Probe)
    (audios : List Audio) (i : ℕ) (s : Progress) : Prop where
  outputs : s.outputs.length = i
  actualBackends : s.actualBackends.length = i
  warm : s.warm = (List.range' 1 (i - 1)).map (warmTime engine p audios)
  replies : ∀ k < i, ∃ audio text backend, audios[k]? = some audio ∧
    (engine p k audio).result = some (text, backend) ∧
    s.outputs[k]? = some (normalized text) ∧ s.actualBackends[k]? = some backend

theorem tracks_zero (now : ℚ≥0) : Tracks normalized engine p audios 0 ⟨[], [], [], now⟩ where
  outputs := rfl
  actualBackends := rfl
  warm := rfl
  replies k hk := absurd hk (Nat.not_lt_zero k)

theorem Tracks.add (h : Tracks normalized engine p audios i s) (haudio : audios[i]? = some audio)
    (hresult : (engine p i audio).result = some (text, backend)) :
    Tracks normalized engine p audios (i + 1)
      (s.add normalized i (engine p i audio) text backend) where
  outputs := by simp [Progress.add, h.outputs]
  actualBackends := by simp [Progress.add, h.actualBackends]
  warm := by
    have htime : warmTime engine p audios i = (engine p i audio).seconds * 1000 := by
      simp [warmTime, haudio]
    cases i with
    | zero => simpa [Progress.add] using h.warm
    | succ i =>
      rw [Progress.add, if_neg (Nat.succ_ne_zero i), h.warm, Nat.add_sub_cancel,
        Nat.add_sub_cancel, List.range'_1_concat, List.map_append, Nat.add_comm 1 i]
      simp [htime]
  replies k hk := by
    rcases Nat.lt_succ_iff_lt_or_eq.mp hk with hk | rfl
    · obtain ⟨audio', text', backend', haudio', hresult', houtput, hactual⟩ := h.replies k hk
      refine ⟨audio', text', backend', haudio', hresult', ?_, ?_⟩
      · simpa [Progress.add, List.getElem?_append_left (h.outputs ▸ hk)] using houtput
      · simpa [Progress.add, List.getElem?_append_left (h.actualBackends ▸ hk)] using hactual
    · refine ⟨audio, text, backend, haudio, hresult, ?_, ?_⟩
      · rw [Progress.add, ← h.outputs, List.getElem?_concat_length]
      · rw [Progress.add, ← h.actualBackends, List.getElem?_concat_length]

/-- The answers are the texts of the progress that pass the checks. -/
theorem Tracks.answer_eq_some (h : Tracks normalized engine p audios i s) (hk : k < i) :
    answer normalized engine p audios k = some text ↔ s.outputs[k]? = some text ∧ text ≠ [] ∧
      s.actualBackends[k]? = some (some p.backend) := by
  obtain ⟨audio, raw, backend, haudio, hresult, houtput, hactual⟩ := h.replies k hk
  rw [answer, haudio, Option.bind_some, hresult, Option.bind_some, houtput, hactual]
  simp only [Option.ite_none_right_eq_some, Option.some.injEq]
  constructor
  · rintro ⟨⟨hbackend, hne⟩, rfl⟩
    exact ⟨rfl, hne, hbackend⟩
  · rintro ⟨rfl, hne, hbackend⟩
    exact ⟨⟨hbackend, hne⟩, rfl⟩

section Runs

variable {before : List Audio}

theorem getElem?_request (before rest : List Audio) (audio : Audio) :
    (before ++ audio :: rest)[before.length]? = some audio := by
  simp

/-- One request: it ends the probe or leads on to the rest. -/
theorem requests_cons (i : ℕ)
    (h : requests normalized engine eager p t i (audio :: rest) s = .ok s') :
    ∃ text backend, (engine p i audio).result = some (text, backend) ∧
      ((eager = true ∧ hasFailed p.backend t.baseline i
          (s.add normalized i (engine p i audio) text backend) = true ∨
        isSlow t.fastestClean i (s.add normalized i (engine p i audio) text backend) = true) ∧
        s' = s.add normalized i (engine p i audio) text backend ∨
      isSlow t.fastestClean i (s.add normalized i (engine p i audio) text backend) = false ∧
        requests normalized engine eager p t (i + 1) rest
          (s.add normalized i (engine p i audio) text backend) = .ok s') := by
  rw [requests] at h
  split at h
  · cases h
  cases hresult : (engine p i audio).result with
  | none =>
    simp only [hresult] at h
    cases h
  | some reply =>
    obtain ⟨text, backend⟩ := reply
    simp only [hresult] at h
    refine ⟨text, backend, rfl, ?_⟩
    split at h
    · next hexit =>
      simp only [Bool.or_eq_true, Bool.and_eq_true] at hexit
      exact .inl ⟨hexit, (Except.ok.inj h).symm⟩
    · next hexit =>
      simp only [Bool.or_eq_true, Bool.and_eq_true, not_or] at hexit
      exact .inr ⟨Bool.eq_false_iff.mpr hexit.2, h⟩

/-- What the requests end with, if none of them fails. -/
theorem tracks_of_requests (before : List Audio) (haudios : audios = before ++ rest)
    (hs : Tracks normalized engine p audios before.length s)
    (h : requests normalized engine eager p t before.length rest s = .ok s') :
    ∃ j ≤ audios.length, Tracks normalized engine p audios j s' := by
  induction rest generalizing before s with
  | nil =>
    obtain rfl := Except.ok.inj h
    exact ⟨before.length, by simp [haudios], hs⟩
  | cons audio rest ih =>
    obtain ⟨text, backend, hresult, hnext⟩ := requests_cons before.length h
    have hadd := hs.add (haudios ▸ getElem?_request before rest audio) hresult
    rcases hnext with ⟨-, rfl⟩ | ⟨-, hrest⟩
    · exact ⟨before.length + 1, by simp [haudios], hadd⟩
    · have hlength : before.length + 1 = (before ++ [audio]).length := by simp
      rw [hlength] at hadd hrest
      exact ih (before ++ [audio]) (by simp [haudios]) hadd hrest

theorem Tracks.isSlow_iff (h : Tracks normalized engine p audios 3 s) (hlong : 3 ≤ audios.length) :
    isSlow t.fastestClean 2 s = true ↔ Slow engine p audios t := by
  have hwarm : s.warm = (warmTimes engine p audios).take 2 := by
    rw [h.warm, warmTimes, ← List.map_take, List.take_range'_of_length_ge (by omega)]
  rw [isSlow, hwarm, Slow]
  cases t.fastestClean <;> simp

/-- A slow candidate stops behind the second warm request at the latest. -/
theorem length_of_slow (before : List Audio) (hslow : Slow engine p audios t)
    (haudios : audios = before ++ rest) (hbefore : before.length ≤ 2) (hlong : 3 ≤ audios.length)
    (hs : Tracks normalized engine p audios before.length s)
    (h : requests normalized engine eager p t before.length rest s = .ok s') :
    s'.outputs.length ≤ 3 := by
  induction rest generalizing before s with
  | nil =>
    simp only [haudios, List.append_nil] at hlong
    omega
  | cons audio rest ih =>
    obtain ⟨text, backend, hresult, hnext⟩ := requests_cons before.length h
    have hadd := hs.add (haudios ▸ getElem?_request before rest audio) hresult
    rcases hnext with ⟨-, rfl⟩ | ⟨hfast, hrest⟩
    · rw [hadd.outputs]
      omega
    · have hlength : before.length + 1 = (before ++ [audio]).length := by simp
      have hnot : before.length ≠ 2 := by
        intro htwo
        rw [htwo] at hadd hfast
        rw [(hadd.isSlow_iff hlong).mpr hslow] at hfast
        cases hfast
      rw [hlength] at hadd hrest
      exact ih (before ++ [audio]) (by simp [haudios]) (by simp; omega) hadd hrest

end Runs

section Soundness

variable {before : List Audio}

theorem Sound.exists_answer (h : Sound normalized engine p audios) (hi : i < audios.length) :
    ∃ text, answer normalized engine p audios i = some text :=
  Option.isSome_iff_exists.mp (h.answers i hi)

theorem getElem?_fullOutputs (h : Sound normalized engine p audios) (hi : i < audios.length) :
    (fullOutputs normalized engine p audios)[i]? = answer normalized engine p audios i := by
  obtain ⟨text, htext⟩ := h.exists_answer hi
  simp [fullOutputs, hi, htext]

theorem getElem?_signature (h : Sound normalized engine p audios)
    (hk : 2 * k + 1 < audios.length) : (signature normalized engine p audios)[k]? =
      answer normalized engine p audios (2 * k + 1) := by
  rw [signature, getElem?_firsts, List.getElem?_tail, getElem?_fullOutputs h hk]

/-- Both requests of a condition have the text of the signature. -/
theorem Sound.signature_of_request (h : Sound normalized engine p audios) (hpos : i ≠ 0)
    (hi : i < audios.length) : (signature normalized engine p audios)[(i - 1) / 2]? =
      answer normalized engine p audios i := by
  rcases Nat.even_or_odd' i with ⟨k, rfl | rfl⟩
  · obtain ⟨j, rfl⟩ : ∃ j, k = j + 1 := ⟨k - 1, by omega⟩
    have hhalf : (2 * (j + 1) - 1) / 2 = j := by omega
    rw [hhalf, getElem?_signature h (by omega), h.pairs j (by omega), Nat.mul_succ]
  · have hhalf : (2 * k + 1 - 1) / 2 = k := by omega
    rw [hhalf, getElem?_signature h hi]

/-- A sound candidate with the texts of the baseline has not failed. -/
theorem Tracks.not_hasFailed (hs : Tracks normalized engine p audios (i + 1) s)
    (hi : i < audios.length) (hsound : Sound normalized engine p audios)
    (hagree : ∀ b, t.baseline = some b → b = signature normalized engine p audios) :
    hasFailed p.backend t.baseline i s = false := by
  have houtput : ∀ k ≤ i, s.outputs[k]? = answer normalized engine p audios k := by
    intro k hk
    obtain ⟨text, htext⟩ := hsound.exists_answer (hk.trans_lt hi)
    rw [htext, ((hs.answer_eq_some (Nat.lt_succ_of_le hk)).mp htext).1]
  obtain ⟨text, htext⟩ := hsound.exists_answer hi
  obtain ⟨-, hne, hactual⟩ := (hs.answer_eq_some (Nat.lt_succ_self i)).mp htext
  have hlast : s.outputs.getLast? = some text := by
    rw [List.getLast?_eq_getElem?, hs.outputs, Nat.add_sub_cancel, houtput i le_rfl, htext]
  have hbackend : s.actualBackends.getLast? = some (some p.backend) := by
    rw [List.getLast?_eq_getElem?, hs.actualBackends, Nat.add_sub_cancel, hactual]
  have hbaseline : (decide (i ≠ 0) && t.baseline.any fun signature =>
      s.outputs.getLast? ≠ signature[(i - 1) / 2]?) = false := by
    by_cases hpos : i = 0
    · simp [hpos]
    · cases hbaseline : t.baseline with
      | none => simp
      | some b =>
        rw [hagree b hbaseline, Option.any_some, hlast, hsound.signature_of_request hpos hi, htext]
        simp
  have hcold : (decide (i = 1) && decide (s.outputs[0]? ≠ s.outputs[1]?)) = false := by
    by_cases hone : i = 1
    · rw [houtput 0 (Nat.zero_le i), houtput 1 hone.ge, hsound.cold]
      simp
    · simp [hone]
  have hpair : (decide (2 ≤ i) && decide (i % 2 = 0) &&
      decide (s.outputs.getLast? ≠ s.outputs[s.outputs.length - 2]?)) = false := by
    by_cases heven : 2 ≤ i ∧ i % 2 = 0
    · obtain ⟨k, rfl⟩ : ∃ k, i = 2 * k + 2 := ⟨(i - 2) / 2, by omega⟩
      have hindex : s.outputs.length - 2 = 2 * k + 1 := by
        rw [hs.outputs]
        omega
      rw [hindex, houtput (2 * k + 1) (Nat.le_succ _), hsound.pairs k hi, hlast, htext]
      simp
    · rw [Bool.and_eq_false_iff, Bool.and_eq_false_iff, decide_eq_false_iff_not,
        decide_eq_false_iff_not]
      exact .inl (not_and_or.mp heven)
  rw [hasFailed, hbaseline, hcold, hpair, hlast, hbackend]
  simp [hne]

/-- A sound candidate with the texts of the baseline that is not slow runs all its requests. -/
theorem requests_complete (before : List Audio) (haudios : audios = before ++ rest)
    (hlong : 3 ≤ audios.length) (hs : Tracks normalized engine p audios before.length s)
    (hsound : Sound normalized engine p audios)
    (hagree : ∀ b, t.baseline = some b → b = signature normalized engine p audios)
    (hfast : ¬ Slow engine p audios t)
    (hbudget : s.now + cost engine p before.length rest < deadline) :
    ∃ s', requests normalized engine eager p t before.length rest s = .ok s' ∧
      Tracks normalized engine p audios audios.length s' := by
  induction rest generalizing before s with
  | nil =>
    rw [List.append_nil] at haudios
    subst haudios
    exact ⟨s, rfl, hs⟩
  | cons audio rest ih =>
    have hi : before.length < audios.length := by simp [haudios]
    have haudio : audios[before.length]? = some audio :=
      haudios ▸ getElem?_request before rest audio
    obtain ⟨answered, hanswer⟩ := hsound.exists_answer hi
    rw [answer, haudio, Option.bind_some] at hanswer
    obtain ⟨⟨text, backend⟩, hresult, -⟩ := Option.bind_eq_some_iff.mp hanswer
    have hadd := hs.add haudio hresult
    have hgoes := hadd.not_hasFailed hi hsound hagree
    have hslow : isSlow t.fastestClean before.length
        (s.add normalized before.length (engine p before.length audio) text backend) = false := by
      by_cases htwo : before.length = 2
      · rw [htwo] at hadd ⊢
        exact Bool.eq_false_iff.mpr (mt (hadd.isSlow_iff hlong).mp hfast)
      · simp [isSlow, htwo]
    rw [cost] at hbudget
    have hnow : ¬ deadline ≤ s.now := by
      refine not_le.mpr (lt_of_le_of_lt ?_ hbudget)
      exact le_self_add
    have hlength : before.length + 1 = (before ++ [audio]).length := by simp
    rw [requests, if_neg hnow]
    simp only [hresult]
    rw [hgoes, hslow, Bool.and_false, Bool.or_false, if_neg Bool.false_ne_true, hlength]
    refine ih (before ++ [audio]) (by simp [haudios]) (hlength ▸ hadd) ?_
    rw [← hlength]
    simpa [Progress.add, add_assoc] using hbudget

def endTime : Except ℚ≥0 Progress → ℚ≥0
  | .ok s => s.now
  | .error now => now

/-- The clock stays within the time that the requests take. -/
theorem endTime_requests : endTime (requests normalized engine eager p t i rest s) ≤
    s.now + cost engine p i rest := by
  induction rest generalizing i s with
  | nil => simp [requests, cost, endTime]
  | cons audio rest ih =>
    have hone : s.now + (engine p i audio).seconds + (engine p i audio).overhead ≤
        s.now + cost engine p i (audio :: rest) := by
      rw [cost, ← add_assoc, ← add_assoc]
      exact le_self_add
    rw [requests]
    split
    · exact le_self_add
    cases hresult : (engine p i audio).result with
    | none =>
      simp only [hresult]
      exact hone
    | some reply =>
      obtain ⟨text, backend⟩ := reply
      simp only [hresult]
      split
      · exact hone
      · refine ih.trans (le_of_eq ?_)
        rw [Progress.add, cost, ← add_assoc, ← add_assoc]

theorem Tracks.answers_iff (hs : Tracks normalized engine p audios audios.length s) :
    (∀ b ∈ s.actualBackends, b = some p.backend) ∧ (∀ text ∈ s.outputs, text ≠ []) ↔
      ∀ i < audios.length, (answer normalized engine p audios i).isSome := by
  constructor
  · rintro ⟨hbackends, htexts⟩ i hi
    obtain ⟨-, text, backend, -, -, houtput, hactual⟩ := hs.replies i hi
    have hne : normalized text ≠ [] := htexts _ (List.mem_of_getElem? houtput)
    rw [hbackends backend (List.mem_of_getElem? hactual)] at hactual
    exact Option.isSome_iff_exists.mpr ⟨_, (hs.answer_eq_some hi).mpr ⟨houtput, hne, hactual⟩⟩
  · intro hanswers
    have hanswer : ∀ i < audios.length, ∃ text, s.outputs[i]? = some text ∧ text ≠ [] ∧
        s.actualBackends[i]? = some (some p.backend) := by
      intro i hi
      obtain ⟨text, htext⟩ := Option.isSome_iff_exists.mp (hanswers i hi)
      exact ⟨text, (hs.answer_eq_some hi).mp htext⟩
    constructor
    · intro b hb
      obtain ⟨i, hi, hget⟩ := List.getElem_of_mem hb
      obtain ⟨-, -, -, hactual⟩ := hanswer i (hs.actualBackends ▸ hi)
      rw [List.getElem?_eq_getElem hi, hget] at hactual
      exact Option.some.inj hactual
    · intro text htext
      obtain ⟨i, hi, hget⟩ := List.getElem_of_mem htext
      obtain ⟨other, houtput, hne, -⟩ := hanswer i (hs.outputs ▸ hi)
      rw [List.getElem?_eq_getElem hi, hget] at houtput
      rwa [Option.some.inj houtput]

theorem passes_iff (hs : Tracks normalized engine p audios audios.length s)
    (hlong : 3 ≤ audios.length) :
    passes p.backend s = true ↔ Sound normalized engine p audios := by
  have houtput : (∀ i < audios.length, (answer normalized engine p audios i).isSome) →
      ∀ i < audios.length, s.outputs[i]? = answer normalized engine p audios i := by
    intro hanswers i hi
    obtain ⟨text, htext⟩ := Option.isSome_iff_exists.mp (hanswers i hi)
    rw [htext, ((hs.answer_eq_some hi).mp htext).1]
  have hchecks : passes p.backend s = true ↔
      ((∀ b ∈ s.actualBackends, b = some p.backend) ∧ ∀ text ∈ s.outputs, text ≠ []) ∧
        s.outputs[0]? = s.outputs[1]? ∧
        ∀ j, 2 * j + 2 < audios.length → s.outputs[2 * j + 1]? = s.outputs[2 * j + 2]? := by
    have hlength : s.outputs.tail.length = audios.length - 1 := by
      rw [List.length_tail, hs.outputs]
    simp only [passes, Bool.and_eq_true, Bool.not_eq_true', List.any_eq_false, List.all_eq_true,
      decide_eq_true_eq, not_not, repeated_iff, hlength, List.getElem?_tail, and_assoc]
    refine and_congr_right fun _ => and_congr_right fun _ => and_congr_right fun _ =>
      forall_congr' fun j => ?_
    refine imp_congr_left ?_
    omega
  rw [hchecks, hs.answers_iff]
  constructor
  · rintro ⟨hanswers, hcold, hpairs⟩
    have hout := houtput hanswers
    refine ⟨hanswers, ?_, fun j hj => ?_⟩
    · rw [← hout 0 (by omega), ← hout 1 (by omega), hcold]
    · rw [← hout _ (by omega), ← hout _ hj, hpairs j hj]
  · intro hsound
    have hout := houtput hsound.answers
    refine ⟨hsound.answers, ?_, fun j hj => ?_⟩
    · rw [hout 0 (by omega), hout 1 (by omega), hsound.cold]
    · rw [hout _ (by omega), hout _ hj, hsound.pairs j hj]

/-- What a sound candidate leaves does not depend on more than its texts and times. -/
theorem score_eq (hs : Tracks normalized engine p audios audios.length s)
    (hsound : Sound normalized engine p audios) : t.score p s =
      t.score p ⟨fullOutputs normalized engine p audios, warmTimes engine p audios, [], 0⟩ := by
  have houtputs : s.outputs = fullOutputs normalized engine p audios := by
    refine List.ext_getElem? fun k => ?_
    by_cases hk : k < audios.length
    · obtain ⟨text, htext⟩ := hsound.exists_answer hk
      rw [getElem?_fullOutputs hsound hk, htext, ((hs.answer_eq_some hk).mp htext).1]
    · rw [List.getElem?_eq_none (by rw [hs.outputs]; omega),
        List.getElem?_eq_none (by simp [fullOutputs]; omega)]
  have hwarm : s.warm = warmTimes engine p audios := hs.warm
  rw [Findings.score, Findings.score, houtputs, hwarm]

end Soundness

/-- What a probe leaves. -/
noncomputable def verdict (normalized : Text → Text) (engine : Probe → ℕ → Audio → Reply)
    (audios : List Audio) (t : Findings) (p : Probe) : Findings :=
  open scoped Classical in
  if Sound normalized engine p audios ∧ ¬ Slow engine p audios t then
    t.score p ⟨fullOutputs normalized engine p audios, warmTimes engine p audios, [], 0⟩
  else t

section Verdicts

/-- The baseline, if there is one, has the texts of the probe. -/
def Agrees (normalized : Text → Text) (engine : Probe → ℕ → Audio → Reply) (p : Probe)
    (audios : List Audio) (t : Findings) : Prop :=
  ∀ b, t.baseline = some b → b = signature normalized engine p audios

theorem score_of_not_agrees (h : ¬ Agrees normalized engine p audios t) :
    t.score p ⟨fullOutputs normalized engine p audios, warmTimes engine p audios, [], 0⟩ = t := by
  obtain ⟨b, hb, hne⟩ : ∃ b, t.baseline = some b ∧ b ≠ signature normalized engine p audios := by
    simpa [Agrees] using h
  obtain ⟨baseline, scored, fastestClean⟩ := t
  obtain rfl : baseline = some b := hb
  have hdiffer : some (firsts (fullOutputs normalized engine p audios).tail) ≠ some b :=
    fun heq => hne (Option.some.inj heq).symm
  simp [Findings.score, hdiffer]

theorem verdict_of_not (h : ¬ (Sound normalized engine p audios ∧ ¬ Slow engine p audios t ∧
    Agrees normalized engine p audios t)) : verdict normalized engine audios t p = t := by
  unfold verdict
  split
  · next hsound => exact score_of_not_agrees fun hagrees => h ⟨hsound.1, hsound.2, hagrees⟩
  · rfl

/-- With any exits for failed candidates a probe leaves the same. -/
theorem probe_findings (eager : Bool) (hlong : 4 ≤ audios.length)
    (hbudget : now + cost engine p 0 audios < deadline) :
    (probe normalized engine eager audios t now p).1 = verdict normalized engine audios t p := by
  have hnil : audios = [] ++ audios := rfl
  have hcomplete : Sound normalized engine p audios ∧ ¬ Slow engine p audios t ∧
      Agrees normalized engine p audios t → ∃ s',
      requests normalized engine eager p t 0 audios ⟨[], [], [], now⟩ = .ok s' ∧
        Tracks normalized engine p audios audios.length s' := fun ⟨hsound, hfast, hagrees⟩ =>
    requests_complete [] hnil (by omega) (tracks_zero now) hsound hagrees hfast hbudget
  rw [probe]
  cases hrun : requests normalized engine eager p t 0 audios ⟨[], [], [], now⟩ with
  | error stop =>
    refine (verdict_of_not fun hall => ?_).symm
    obtain ⟨s', hs', -⟩ := hcomplete hall
    cases hrun.symm.trans hs'
  | ok s =>
    obtain ⟨j, hj, htracks⟩ := tracks_of_requests [] hnil (tracks_zero now) hrun
    simp only [Findings.judge]
    split
    · next hshort =>
      refine (verdict_of_not fun hall => ?_).symm
      obtain ⟨s', hs', hfull⟩ := hcomplete hall
      obtain rfl := Except.ok.inj (hrun.symm.trans hs')
      exact hshort hfull.outputs
    · next hfull =>
      obtain rfl : j = audios.length := htracks.outputs.symm.trans (not_not.mp hfull)
      by_cases hsound : Sound normalized engine p audios
      · have hfast : ¬ Slow engine p audios t := by
          intro hslow
          have hshort := length_of_slow [] hslow hnil (by simp) (by omega)
            (tracks_zero now) hrun
          rw [htracks.outputs] at hshort
          omega
        rw [if_neg (not_not.mpr ((passes_iff htracks (by omega)).mpr hsound)), verdict,
          if_pos ⟨hsound, hfast⟩, score_eq htracks hsound]
      · rw [if_pos (mt (passes_iff htracks (by omega)).mp hsound), verdict,
          if_neg fun h => hsound h.1]

theorem now_of_probe : (probe normalized engine eager audios t now p).2 ≤
    now + cost engine p 0 audios := by
  have htime : endTime (requests normalized engine eager p t 0 audios ⟨[], [], [], now⟩) ≤
      now + cost engine p 0 audios := endTime_requests
  rw [probe]
  cases hrun : requests normalized engine eager p t 0 audios ⟨[], [], [], now⟩ with
  | error stop =>
    rw [hrun] at htime
    exact htime
  | ok s =>
    rw [hrun] at htime
    exact htime

/-- Within the time budget a run leaves what its verdicts leave. -/
theorem tune_eq_foldl (hlong : 4 ≤ audios.length) (ps : List Probe)
    (hbudget : now + (ps.map fun p => cost engine p 0 audios).sum < deadline) :
    tune normalized engine eager audios ps t now =
      ps.foldl (verdict normalized engine audios) t := by
  induction ps generalizing t now with
  | nil => rfl
  | cons p ps ih =>
    rw [List.map_cons, List.sum_cons, ← add_assoc] at hbudget
    have hprobe : now + cost engine p 0 audios < deadline :=
      lt_of_le_of_lt le_self_add hbudget
    have hnow : ¬ deadline ≤ now := not_le.mpr (lt_of_le_of_lt le_self_add hprobe)
    rw [tune, if_neg hnow, List.foldl_cons, ← probe_findings eager hlong hprobe]
    exact ih (lt_of_le_of_lt (by gcongr; exact now_of_probe) hbudget)

end Verdicts

end Requests

/-! ## The choice -/

section Choice

variable {es : List Entry} {e f : Entry} {scored : List Entry} {b : Backend} {n : ℕ}

theorem score_le_of_not_before (h : e.before f = false) : f.score ≤ e.score := by
  simp only [Entry.before, Bool.or_eq_false_iff, decide_eq_false_iff_not, not_lt] at h
  exact h.1

theorem score_le_of_before (h : e.before f = true) : e.score ≤ f.score := by
  simp only [Entry.before, Bool.or_eq_true, Bool.and_eq_true, decide_eq_true_eq] at h
  rcases h with h | ⟨h, _⟩
  · exact h.le
  · exact h.le

theorem foldl_least (es : List Entry) (e : Entry) :
    es.foldl (fun best e => if e.before best then e else best) e ∈ e :: es ∧
      ∀ f ∈ e :: es,
        (es.foldl (fun best e => if e.before best then e else best) e).score ≤ f.score := by
  induction es generalizing e with
  | nil => simp
  | cons next es ih =>
    rw [List.foldl_cons]
    by_cases hbefore : next.before e = true
    · rw [if_pos hbefore]
      obtain ⟨hmem, hle⟩ := ih next
      refine ⟨List.mem_cons_of_mem e hmem, fun f hf => ?_⟩
      rcases List.mem_cons.mp hf with rfl | hf
      · exact (hle next List.mem_cons_self).trans (score_le_of_before hbefore)
      · exact hle f hf
    · rw [if_neg hbefore]
      obtain ⟨hmem, hle⟩ := ih e
      refine ⟨?_, fun f hf => ?_⟩
      · rcases List.mem_cons.mp hmem with heq | hmem
        · rw [heq]
          exact List.mem_cons_self
        · exact List.mem_cons_of_mem e (List.mem_cons_of_mem next hmem)
      · rcases List.mem_cons.mp hf with rfl | hf
        · exact hle f List.mem_cons_self
        · rcases List.mem_cons.mp hf with rfl | hf
          · exact (hle e List.mem_cons_self).trans
              (score_le_of_not_before (Bool.eq_false_iff.mpr hbefore))
          · exact hle f (List.mem_cons_of_mem e hf)

theorem least_spec (h : least es = some e) : e ∈ es ∧ ∀ f ∈ es, e.score ≤ f.score := by
  cases es with
  | nil => cases h
  | cons first es =>
    obtain rfl := Option.some.inj h
    exact foldl_least es first

theorem least_eq_none (h : least es = none) : es = [] := by
  cases es with
  | nil => rfl
  | cons first es => cases h

/-- What is chosen was scored, and a GPU is faster by a tenth than every CPU candidate. -/
theorem choose_spec (h : choose scored = some (b, n)) :
    ∃ e ∈ scored, e.backend = b ∧ e.threads = n ∧
      (b = .gpu → ∀ f ∈ scored, f.backend = .cpu → e.score ≤ f.score * (9 / 10)) := by
  obtain ⟨best, hbest, hchoice⟩ := Option.map_eq_some_iff.mp h
  have hmem := (least_spec hbest).1
  cases hcpu : least (scored.filter (·.backend = .cpu)) with
  | none =>
    simp only [hcpu] at hchoice
    obtain ⟨hb, hn⟩ := Prod.mk.inj hchoice
    refine ⟨best, hmem, hb, hn, fun _ f hf hfcpu => ?_⟩
    have hfilter : f ∈ scored.filter (·.backend = .cpu) :=
      List.mem_filter.mpr ⟨hf, decide_eq_true hfcpu⟩
    rw [least_eq_none hcpu] at hfilter
    cases hfilter
  | some cpu =>
    obtain ⟨hfilter, hle⟩ := least_spec hcpu
    obtain ⟨hcpuMem, hcpuBackend⟩ := List.mem_filter.mp hfilter
    simp only [hcpu] at hchoice
    split at hchoice
    · obtain ⟨hb, hn⟩ := Prod.mk.inj hchoice
      refine ⟨cpu, hcpuMem, hb, hn, fun hgpu => ?_⟩
      rw [← hb, of_decide_eq_true hcpuBackend] at hgpu
      cases hgpu
    · next hclose =>
      obtain ⟨hb, hn⟩ := Prod.mk.inj hchoice
      refine ⟨best, hmem, hb, hn, fun hgpu f hf hfcpu => ?_⟩
      have hfast : best.score ≤ cpu.score * (9 / 10) := by
        refine not_lt.mp fun hslow => hclose ⟨hb.trans hgpu, hslow⟩
      refine hfast.trans ?_
      gcongr
      exact hle f (List.mem_filter.mpr ⟨hf, decide_eq_true hfcpu⟩)

end Choice

/-! ## Whole runs -/

section Runs

variable {Audio : Type} {normalized : Text → Text} {noisy : Audio → Audio}
  {engine : Probe → ℕ → Audio → Reply} {audios : List Audio} {done ps : List Probe}
  {p q : Probe} {t : Findings} {s : Progress}

/-- The first CPU candidate that is sound. -/
def FirstSound (normalized : Text → Text) (engine : Probe → ℕ → Audio → Reply)
    (audios : List Audio) (ps : List Probe) (q : Probe) : Prop :=
  ∃ before after, ps = before ++ q :: after ∧ q.backend = .cpu ∧
    Sound normalized engine q audios ∧
    ∀ r ∈ before, r.backend = .cpu → ¬ Sound normalized engine r audios

theorem FirstSound.append (h : FirstSound normalized engine audios done q) (ps : List Probe) :
    FirstSound normalized engine audios (done ++ ps) q := by
  obtain ⟨before, after, rfl, hq⟩ := h
  exact ⟨before, after ++ ps, by simp, hq⟩

/-- What the verdicts on some probes have left. -/
structure Reached (normalized : Text → Text) (engine : Probe → ℕ → Audio → Reply)
    (audios : List Audio) (done : List Probe) (t : Findings) : Prop where
  baseline : t.baseline = none ∧
      (∀ r ∈ done, r.backend = .cpu → ¬ Sound normalized engine r audios) ∨
    ∃ q, FirstSound normalized engine audios done q ∧
      t.baseline = some (signature normalized engine q audios)
  fastest : t.fastestClean ≠ none → t.baseline ≠ none
  scored : ∀ e ∈ t.scored, ∃ p ∈ done,
    e = ⟨median (warmTimes engine p audios), p.backend, p.threads⟩ ∧
      Sound normalized engine p audios ∧
      t.baseline = some (signature normalized engine p audios)

/-- What scoring changes. -/
theorem score_cases (t : Findings) (p : Probe) (s : Progress) :
    t.baseline = none ∧ p.backend ≠ .cpu ∧ t.score p s = t ∨
    ∃ b, (t.baseline = some b ∨ t.baseline = none ∧ p.backend = .cpu ∧ b = firsts s.outputs.tail) ∧
      (t.score p s).baseline = some b ∧
      ((t.score p s).scored = t.scored ∨ b = firsts s.outputs.tail ∧
        (t.score p s).scored = t.scored ++ [⟨median s.warm, p.backend, p.threads⟩]) := by
  obtain ⟨baseline, scored, fastestClean⟩ := t
  by_cases hfirst : baseline = none ∧ p.backend ≠ .cpu
  · exact .inl ⟨hfirst.1, hfirst.2, by simp [Findings.score, hfirst]⟩
  · right
    refine ⟨baseline.getD (firsts s.outputs.tail), ?_, ?_⟩
    · cases baseline with
      | none => exact .inr ⟨rfl, by simpa using hfirst, rfl⟩
      | some b => exact .inl rfl
    · simp only [Findings.score, if_neg hfirst]
      by_cases hsame : some (firsts s.outputs.tail) ≠ some (baseline.getD (firsts s.outputs.tail))
      · rw [if_pos hsame]
        exact ⟨rfl, .inl rfl⟩
      · rw [if_neg hsame]
        split
        · exact ⟨rfl, .inr ⟨(Option.some.inj (not_not.mp hsame)).symm, rfl⟩⟩
        · exact ⟨rfl, .inl rfl⟩

theorem Reached.verdict (h : Reached normalized engine audios done t) (p : Probe) :
    Reached normalized engine audios (done ++ [p]) (verdict normalized engine audios t p) := by
  have hscored : ∀ e ∈ t.scored, ∃ r ∈ done ++ [p],
      e = ⟨median (warmTimes engine r audios), r.backend, r.threads⟩ ∧
        Sound normalized engine r audios ∧
        t.baseline = some (signature normalized engine r audios) := by
    intro e he
    obtain ⟨r, hr, hrest⟩ := h.scored e he
    exact ⟨r, List.mem_append_left _ hr, hrest⟩
  -- What is kept is right if the probe is no sound CPU candidate in front of the baseline.
  have hkeep : (t.baseline = none → p.backend = .cpu → ¬ Sound normalized engine p audios) →
      Reached normalized engine audios (done ++ [p]) t := by
    intro hnew
    refine ⟨?_, h.fastest, hscored⟩
    rcases h.baseline with ⟨hnone, hold⟩ | ⟨q, hq, hbaseline⟩
    · refine .inl ⟨hnone, fun r hr hcpu => ?_⟩
      rcases List.mem_append.mp hr with hr | hr
      · exact hold r hr hcpu
      · rw [List.mem_singleton.mp hr] at hcpu ⊢
        exact hnew hnone hcpu
    · exact .inr ⟨q, hq.append [p], hbaseline⟩
  by_cases hvalid : Sound normalized engine p audios ∧ ¬ Slow engine p audios t
  · obtain ⟨hsound, hfast⟩ := hvalid
    rw [Tuning.verdict, if_pos ⟨hsound, hfast⟩]
    rcases score_cases t p ⟨fullOutputs normalized engine p audios, warmTimes engine p audios,
      [], 0⟩ with ⟨_, hgpu, heq⟩ | ⟨b, hb, hbaseline, hnext⟩
    · rw [heq]
      exact hkeep fun _ hcpu => absurd hcpu hgpu
    · refine ⟨.inr ?_, fun _ => by simp [hbaseline], fun e he => ?_⟩
      · rcases hb with hb | ⟨hnone, hcpu, hb⟩
        · rcases h.baseline with ⟨hnone, _⟩ | ⟨q, hq, hold⟩
          · cases hnone.symm.trans hb
          · exact ⟨q, hq.append [p], hbaseline.trans (hb.symm.trans hold)⟩
        · rcases h.baseline with ⟨_, hold⟩ | ⟨q, _, hold⟩
          · refine ⟨p, ⟨done, [], rfl, hcpu, hsound, hold⟩, ?_⟩
            rw [hbaseline, hb, signature]
          · cases hnone.symm.trans hold
      · have hkept : e ∈ t.scored → ∃ r ∈ done ++ [p],
            e = ⟨median (warmTimes engine r audios), r.backend, r.threads⟩ ∧
              Sound normalized engine r audios ∧
              (t.score p ⟨fullOutputs normalized engine p audios, warmTimes engine p audios,
                [], 0⟩).baseline = some (signature normalized engine r audios) := by
          intro he
          obtain ⟨r, hr, heq, hsound, hold⟩ := hscored e he
          refine ⟨r, hr, heq, hsound, hbaseline.trans ?_⟩
          rcases hb with hb | ⟨hnone, _⟩
          · exact hb.symm.trans hold
          · cases hnone.symm.trans hold
        rcases hnext with hsame | ⟨hsignature, hadded⟩
        · exact hkept (hsame ▸ he)
        · rw [hadded] at he
          rcases List.mem_append.mp he with he | he
          · exact hkept he
          · refine ⟨p, List.mem_append_right _ List.mem_cons_self, List.mem_singleton.mp he, hsound,
              hbaseline.trans (congrArg some hsignature)⟩
  · rw [Tuning.verdict, if_neg hvalid]
    refine hkeep fun hnone _ hsound => hvalid ⟨hsound, ?_⟩
    rintro ⟨fastest, hfastest, _⟩
    exact h.fastest (by simp [hfastest]) hnone

theorem Reached.foldl (h : Reached normalized engine audios done t) (ps : List Probe) :
    Reached normalized engine audios (done ++ ps)
      (ps.foldl (Tuning.verdict normalized engine audios) t) := by
  induction ps generalizing done t with
  | nil => rwa [List.append_nil]
  | cons p ps ih =>
    rw [List.append_cons]
    exact ih (h.verdict p)

theorem reached_start : Reached normalized engine audios [] ⟨none, [], none⟩ where
  baseline := .inl ⟨rfl, nofun⟩
  fastest := nofun
  scored := nofun

theorem length_requestSequence (pcm : Audio) (additional : List Audio) :
    4 ≤ (requestSequence noisy pcm additional).length := by
  simp [requestSequence, conditions]

theorem signature_answer (hp : Sound normalized engine p audios)
    (hq : Sound normalized engine q audios)
    (h : signature normalized engine p audios = signature normalized engine q audios) (j : ℕ)
    (hj : 2 * j + 1 < audios.length) : answer normalized engine p audios (2 * j + 1) =
      answer normalized engine q audios (2 * j + 1) := by
  rw [← getElem?_signature hp hj, ← getElem?_signature hq hj, h]

/-- The requests of all probes take less than the time that there is. -/
def WithinBudget (engine : Probe → ℕ → Audio → Reply) (audios : List Audio)
    (ps : List Probe) : Prop :=
  (ps.map fun p => cost engine p 0 audios).sum < deadline

/-- The backend that is chosen gives the texts of the first sound CPU candidate, a GPU is chosen
only where it is faster by a tenth, and no exit of a failed candidate matters. -/
theorem tuned_backend_is_sound (pcm : Audio) (additional : List Audio) (threads cpuCount : ℕ)
    (hbudget : WithinBudget engine (requestSequence noisy pcm additional)
      (probesOf threads cpuCount)) :
    (∀ b n, run normalized noisy engine true pcm additional threads cpuCount = some (b, n) →
      ⟨b, n⟩ ∈ probesOf threads cpuCount ∧
      Sound normalized engine ⟨b, n⟩ (requestSequence noisy pcm additional) ∧
      (∃ q, FirstSound normalized engine (requestSequence noisy pcm additional)
          (probesOf threads cpuCount) q ∧
        ∀ j, 2 * j + 1 < (requestSequence noisy pcm additional).length →
          answer normalized engine ⟨b, n⟩ (requestSequence noisy pcm additional) (2 * j + 1) =
            answer normalized engine q (requestSequence noisy pcm additional) (2 * j + 1)) ∧
      (b = .gpu → ∀ e ∈ (findings normalized noisy engine true pcm additional threads
          cpuCount).scored, e.backend = .cpu →
        median (warmTimes engine ⟨b, n⟩ (requestSequence noisy pcm additional)) ≤
          median (warmTimes engine ⟨.cpu, e.threads⟩ (requestSequence noisy pcm additional)) *
            (9 / 10))) ∧
    run normalized noisy engine true pcm additional threads cpuCount =
      run normalized noisy engine false pcm additional threads cpuCount := by
  have hfindings (eager : Bool) :
      findings normalized noisy engine eager pcm additional threads cpuCount =
        (probesOf threads cpuCount).foldl
          (Tuning.verdict normalized engine (requestSequence noisy pcm additional))
          ⟨none, [], none⟩ := by
    refine tune_eq_foldl (length_requestSequence pcm additional) _ ?_
    rwa [zero_add]
  have hreached : Reached normalized engine (requestSequence noisy pcm additional)
      ([] ++ probesOf threads cpuCount) ((probesOf threads cpuCount).foldl
        (Tuning.verdict normalized engine (requestSequence noisy pcm additional))
        ⟨none, [], none⟩) := reached_start.foldl _
  rw [List.nil_append, ← hfindings true] at hreached
  refine ⟨fun b n hrun => ?_, by rw [run, run, hfindings, hfindings]⟩
  obtain ⟨e, he, rfl, rfl, hgpu⟩ := choose_spec hrun
  obtain ⟨p, hp, rfl, hsound, hbaseline⟩ := hreached.scored e he
  refine ⟨hp, hsound, ?_, fun hb f hf hcpu => ?_⟩
  · rcases hreached.baseline with ⟨hnone, _⟩ | ⟨q, hq, hold⟩
    · cases hnone.symm.trans hbaseline
    · obtain ⟨_, _, _, _, hqSound, _⟩ := id hq
      exact ⟨q, hq, signature_answer hsound hqSound
        (Option.some.inj (hbaseline.symm.trans hold))⟩
  · obtain ⟨⟨backend, m⟩, _, rfl, _⟩ := hreached.scored f hf
    have hbackend : backend = .cpu := hcpu
    subst hbackend
    simpa only using hgpu hb _ hf rfl

end Runs

/-- The GPU takes half the time of the CPU for every request. -/
def halvingEngine (p : Probe) (_ : ℕ) (_ : Unit) : Reply where
  seconds := match p.backend with
    | .cpu => 1
    | .gpu => 1 / 2
  overhead := 0
  result := some (['a'], some p.backend)

theorem halving_engine_is_tuned :
    run id id halvingEngine true () [] 2 8 = run id id halvingEngine false () [] 2 8 := by
  refine (tuned_backend_is_sound () [] 2 8 ?_).2
  norm_num [WithinBudget, probesOf, requestSequence, conditions, cost, halvingEngine, deadline]

end Dictation.Tuning

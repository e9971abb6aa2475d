import Mathlib.Data.List.Basic
import Mathlib.Logic.Relation
import Mathlib.Order.Monotone.Basic

/-!
# Runs of a transition system

A step function that may be blocked, the states reached by runs whose every step meets a condition, and the invariant rule: what
holds at the start and is kept by every step that meets the condition holds of every state reached.
-/

namespace Transition

variable {σ α : Type*} {step : σ → α → Option σ} {ok ok' : σ → α → Prop} {s₀ s s' : σ}

/-- The states reached from `s₀` by steps of which each meets `ok` in the state it is taken from. -/
inductive Reach (step : σ → α → Option σ) (ok : σ → α → Prop) (s₀ : σ) : σ → Prop where
  | refl : Reach step ok s₀ s₀
  | step {s s' : σ} (a : α) : Reach step ok s₀ s → ok s a → step s a = some s' → Reach step ok s₀ s'

/-- No condition on the steps. -/
def anyStep : σ → α → Prop := fun _ _ => True

/-- The invariant rule. -/
theorem Reach.invariant {inv : σ → Prop} (h : Reach step ok s₀ s) (h0 : inv s₀)
    (hstep : ∀ s a s', inv s → ok s a → step s a = some s' → inv s') : inv s := by
  induction h with
  | refl => exact h0
  | step a _ hok hs ih => exact hstep _ a _ ih hok hs

/-- A run that meets a condition meets every weaker one. -/
theorem Reach.mono (hle : ∀ s a, ok s a → ok' s a) (h : Reach step ok s₀ s) : Reach step ok' s₀ s := by
  induction h with
  | refl => exact Reach.refl
  | step a _ hok hs ih => exact Reach.step a ih (hle _ a hok) hs

/-- Runs compose. -/
theorem Reach.trans (h : Reach step ok s₀ s) (h' : Reach step ok s s') : Reach step ok s₀ s' := by
  induction h' with
  | refl => exact h
  | step a _ hok hs ih => exact Reach.step a ih hok hs

/-- Simulation: where every step from related states is matched by a step or by none, every state reached is related to one that the
other system reaches. -/
theorem Reach.simulate {τ β : Type*} {step' : τ → β → Option τ} {rel : σ → τ → Prop} {t₀ : τ} (h : Reach step ok s₀ s)
    (h0 : rel s₀ t₀) (hstep : ∀ s a s' t, rel s t → ok s a → step s a = some s' →
      rel s' t ∨ ∃ b t', step' t b = some t' ∧ rel s' t') :
    ∃ t, Reach step' anyStep t₀ t ∧ rel s t := by
  induction h with
  | refl => exact ⟨t₀, Reach.refl, h0⟩
  | step a _ hok hs ih =>
    obtain ⟨t, ht, hrel⟩ := ih
    rcases hstep _ a _ t hrel hok hs with hsame | ⟨b, t', hb, hrel'⟩
    · exact ⟨t, ht, hsame⟩
    · exact ⟨t', Reach.step b ht trivial hb, hrel'⟩

/-- The state a list of actions leads to, if none of them is blocked. -/
def exec (step : σ → α → Option σ) : σ → List α → Option σ
  | s, [] => some s
  | s, a :: as => (step s a).bind fun s' => exec step s' as

theorem exec_append (s : σ) (as bs : List α) :
    exec step s (as ++ bs) = (exec step s as).bind fun t => exec step t bs := by
  induction as generalizing s with
  | nil => rfl
  | cons a as ih =>
    simp only [List.cons_append, exec, Option.bind_assoc]
    exact congrArg _ (funext fun s' => ih s')

/-- Every action of the list meets the condition in the state it is taken from. -/
def Along (step : σ → α → Option σ) (ok : σ → α → Prop) : σ → List α → Prop
  | _, [] => True
  | s, a :: as => ok s a ∧ ∀ s' ∈ step s a, Along step ok s' as

instance Along.decidable [∀ s a, Decidable (ok s a)] : ∀ (s : σ) (as : List α), Decidable (Along step ok s as)
  | _, [] => inferInstanceAs (Decidable True)
  | s, a :: as =>
    have : Decidable (∀ s' ∈ step s a, Along step ok s' as) :=
      match h : step s a with
      | none => .isTrue (by intro s' hs'; cases hs')
      | some s₁ =>
        match Along.decidable s₁ as with
        | .isTrue h1 => .isTrue (by intro s' hs'; cases hs'; exact h1)
        | .isFalse h1 => .isFalse (fun hall => h1 (hall s₁ rfl))
    inferInstanceAs (Decidable (_ ∧ _))

/-- A list of actions that is not blocked and meets the condition all along is a run. -/
theorem reach_of_exec {as : List α} (hok : Along step ok s as) (he : exec step s as = some s') :
    Reach step ok s s' := by
  induction as generalizing s with
  | nil => cases he; exact Reach.refl
  | cons a as ih =>
    obtain ⟨h1, h2⟩ := hok
    simp only [exec, Option.bind_eq_some_iff] at he
    obtain ⟨s₁, hs₁, he⟩ := he
    exact (Reach.step a Reach.refl h1 hs₁).trans (ih (h2 s₁ hs₁) he)

/-- A list of actions that is not blocked is a run, when nothing is asked of the steps. -/
theorem reach_anyStep_of_exec {as : List α} (he : exec step s as = some s') : Reach step anyStep s s' := by
  induction as generalizing s with
  | nil => cases he; exact Reach.refl
  | cons a as ih =>
    simp only [exec, Option.bind_eq_some_iff] at he
    obtain ⟨s₁, hs₁, he⟩ := he
    exact (Reach.step a Reach.refl trivial hs₁).trans (ih he)

/-- A list of actions that meets a condition meets every other that its actions then meet. -/
theorem Along.mono {as : List α} (h : Along step ok s as) (hle : ∀ a ∈ as, ∀ t, ok t a → ok' t a) : Along step ok' s as := by
  induction as generalizing s with
  | nil => trivial
  | cons a as ih =>
    exact ⟨hle a List.mem_cons_self s h.1, fun s' hs' => ih (h.2 s' hs') fun b hb => hle b (List.mem_cons_of_mem a hb)⟩

/-- The first actions of a list that meets the condition meet it. -/
theorem Along.before {as bs : List α} (h : Along step ok s (as ++ bs)) : Along step ok s as := by
  induction as generalizing s with
  | nil => trivial
  | cons a as ih => exact ⟨h.1, fun s' hs' => ih (h.2 s' hs')⟩

/-- What is left of a list of actions meets the condition from the state the first of them lead to. -/
theorem Along.after {as bs : List α} (h : Along step ok s (as ++ bs)) (he : exec step s as = some s') :
    Along step ok s' bs := by
  induction as generalizing s with
  | nil =>
    cases he
    exact h
  | cons a as ih =>
    simp only [exec, Option.bind_eq_some_iff] at he
    obtain ⟨s₁, hs₁, he⟩ := he
    exact ih (h.2 s₁ hs₁) he

/-- Two conditions that agree where an invariant holds, which the steps that meet the second keep, are met by the same runs. -/
theorem along_congr {inv : σ → Prop} (h0 : inv s)
    (hstep : ∀ s a s', inv s → ok' s a → step s a = some s' → inv s') (heq : ∀ s a, inv s → (ok s a ↔ ok' s a))
    (as : List α) : Along step ok s as ↔ Along step ok' s as := by
  induction as generalizing s with
  | nil => exact Iff.rfl
  | cons a as ih =>
    have hfirst := heq s a h0
    constructor
    · rintro ⟨hok, hrest⟩
      exact ⟨hfirst.1 hok, fun s' hs' => (ih (hstep s a s' h0 (hfirst.1 hok) hs')).1 (hrest s' hs')⟩
    · rintro ⟨hok, hrest⟩
      exact ⟨hfirst.2 hok, fun s' hs' => (ih (hstep s a s' h0 hok hs')).2 (hrest s' hs')⟩

/-- Where a step from a good state leads to a good state exactly when it meets the condition, a run stays in good states exactly
when its steps meet the condition. -/
theorem along_iff {good : σ → Prop} (h0 : good s)
    (hstep : ∀ s a s', good s → step s a = some s' → (good s' ↔ ok s a)) {as : List α} (he : exec step s as = some s') :
    (∀ bs, bs <+: as → ∀ t, exec step s bs = some t → good t) ↔ Along step ok s as := by
  induction as generalizing s with
  | nil =>
    refine iff_of_true ?_ trivial
    intro bs hbs t ht
    obtain rfl := List.prefix_nil.1 hbs
    cases ht
    exact h0
  | cons a as ih =>
    simp only [exec, Option.bind_eq_some_iff] at he
    obtain ⟨s₁, hs₁, he⟩ := he
    have hfirst := hstep s a s₁ h0 hs₁
    constructor
    · intro hall
      have hgood : good s₁ := hall [a] ⟨as, rfl⟩ s₁ (by simp [exec, hs₁])
      refine ⟨hfirst.1 hgood, ?_⟩
      intro t ht
      obtain rfl : s₁ = t := Option.some.inj (hs₁.symm.trans ht)
      refine (ih hgood he).1 fun bs hbs t ht => hall (a :: bs) (List.prefix_cons_inj a |>.2 hbs) t ?_
      simp [exec, hs₁, ht]
    · intro hal bs hbs t ht
      obtain ⟨hok, hrest⟩ := hal
      cases bs with
      | nil =>
        cases ht
        exact h0
      | cons b bs =>
        obtain ⟨rfl, hbs'⟩ := List.cons_prefix_cons.1 hbs
        simp only [exec, hs₁, Option.bind_some] at ht
        exact (ih (hfirst.2 hok) he).2 (hrest s₁ hs₁) bs hbs' t ht

/-- A condition on the actions alone. -/
theorem along_of_forall {allowed : α → Prop} {as : List α} (h : ∀ a ∈ as, allowed a) : Along step (fun _ a => allowed a) s as := by
  induction as generalizing s with
  | nil => trivial
  | cons a as ih =>
    exact ⟨h a List.mem_cons_self, fun s' _ => ih fun b hb => h b (List.mem_cons_of_mem a hb)⟩

/-- Where under an invariant an allowed action can be taken exactly when it meets the condition, a list of such actions can be taken
exactly when they meet the condition. -/
theorem exists_exec_iff {allowed : σ → α → Prop} {inv : σ → Prop} (h0 : inv s)
    (hinv : ∀ s a s', inv s → allowed s a → step s a = some s' → inv s')
    (hstep : ∀ s a, inv s → allowed s a → ((∃ s', step s a = some s') ↔ ok s a)) {as : List α}
    (has : Along step allowed s as) : (∃ t, exec step s as = some t) ↔ Along step ok s as := by
  induction as generalizing s with
  | nil => exact iff_of_true ⟨s, rfl⟩ trivial
  | cons a as ih =>
    obtain ⟨ha, hrest⟩ := has
    have hfirst := hstep s a h0 ha
    constructor
    · rintro ⟨t, ht⟩
      simp only [exec, Option.bind_eq_some_iff] at ht
      obtain ⟨s₁, hs₁, ht⟩ := ht
      refine ⟨hfirst.1 ⟨s₁, hs₁⟩, fun s' hs' => ?_⟩
      obtain rfl : s₁ = s' := Option.some.inj (hs₁.symm.trans hs')
      exact (ih (hinv s a s₁ h0 ha hs₁) (hrest s₁ hs₁)).1 ⟨t, ht⟩
    · rintro ⟨hok, hal⟩
      obtain ⟨s₁, hs₁⟩ := hfirst.2 hok
      obtain ⟨t, ht⟩ := (ih (hinv s a s₁ h0 ha hs₁) (hrest s₁ hs₁)).2 (hal s₁ hs₁)
      exact ⟨t, by simp [exec, hs₁, ht]⟩

/-- Where from a good state an allowed action can be taken and leads to a good state exactly when it meets the condition, all states
of a list of such actions exist and are good exactly when the actions meet the condition. -/
theorem along_iff_exec {allowed : σ → α → Prop} {good : σ → Prop} (h0 : good s)
    (hstep : ∀ s a, good s → allowed s a → ((∃ s' ∈ step s a, good s') ↔ ok s a)) {as : List α}
    (has : Along step allowed s as) : (∀ bs, bs <+: as → ∃ t ∈ exec step s bs, good t) ↔ Along step ok s as := by
  induction as generalizing s with
  | nil =>
    refine iff_of_true ?_ trivial
    intro bs hbs
    obtain rfl := List.prefix_nil.1 hbs
    exact ⟨s, rfl, h0⟩
  | cons a as ih =>
    obtain ⟨ha, hrest⟩ := has
    have hfirst := hstep s a h0 ha
    constructor
    · intro hall
      obtain ⟨s₁, hs₁, hgood⟩ := hall [a] ⟨as, rfl⟩
      have hs₁ : step s a = some s₁ := by simpa [exec] using hs₁
      refine ⟨hfirst.1 ⟨s₁, hs₁, hgood⟩, ?_⟩
      intro t ht
      obtain rfl : s₁ = t := Option.some.inj (hs₁.symm.trans ht)
      refine (ih hgood (hrest s₁ hs₁)).1 fun bs hbs => ?_
      simpa [exec, hs₁] using hall (a :: bs) ((List.prefix_cons_inj a).2 hbs)
    · rintro ⟨hok, hal⟩ bs hbs
      obtain ⟨s₁, hs₁, hgood⟩ := hfirst.2 hok
      have hs₁ : step s a = some s₁ := hs₁
      cases bs with
      | nil => exact ⟨s, rfl, h0⟩
      | cons b bs =>
        obtain ⟨rfl, hbs'⟩ := List.cons_prefix_cons.1 hbs
        simpa [exec, hs₁] using (ih hgood (hrest s₁ hs₁)).2 (hal s₁ hs₁) bs hbs'

/-- Where under an invariant an action leads to what is asked after it exactly when it meets the condition, it does so all along a
run exactly when the actions meet the condition. -/
theorem along_iff_after (inv : σ → Prop) (post : α → σ → Prop) (h0 : inv s)
    (hinv : ∀ s a s', inv s → step s a = some s' → inv s')
    (hstep : ∀ s a s', inv s → step s a = some s' → (post a s' ↔ ok s a)) {as : List α} (he : exec step s as = some s') :
    (∀ bs a, bs ++ [a] <+: as → ∀ t, exec step s (bs ++ [a]) = some t → post a t) ↔ Along step ok s as := by
  induction as generalizing s with
  | nil =>
    refine iff_of_true ?_ trivial
    intro bs a hbs
    exact absurd (List.prefix_nil.1 hbs) (by simp)
  | cons a as ih =>
    simp only [exec, Option.bind_eq_some_iff] at he
    obtain ⟨s₁, hs₁, he⟩ := he
    have hfirst := hstep s a s₁ h0 hs₁
    have hrest := ih (hinv s a s₁ h0 hs₁) he
    constructor
    · intro hall
      refine ⟨hfirst.1 (hall [] a ⟨as, rfl⟩ s₁ (by simp [exec, hs₁])), ?_⟩
      intro t ht
      obtain rfl : s₁ = t := Option.some.inj (hs₁.symm.trans ht)
      refine hrest.1 fun bs b hbs t ht => hall (a :: bs) b ?_ t (by simp [exec, hs₁, ht])
      exact (List.prefix_cons_inj a).2 hbs
    · rintro ⟨hok, hal⟩ bs b hbs t ht
      cases bs with
      | nil =>
        obtain ⟨rfl, -⟩ := List.cons_prefix_cons.1 hbs
        simp only [List.nil_append, exec, hs₁, Option.bind_some, Option.some.injEq] at ht
        subst ht
        exact hfirst.2 hok
      | cons c bs =>
        obtain ⟨rfl, hbs'⟩ := List.cons_prefix_cons.1 hbs
        simp only [List.cons_append, exec, hs₁, Option.bind_some] at ht
        exact hrest.2 (hal s₁ hs₁) bs b hbs' t ht

/-! ## Coming to a goal -/

/-- A run that goes on for good: at each time a step is taken, or nothing happens. -/
def Run (step : σ → α → Option σ) (run : Nat → σ) : Prop :=
  ∀ t, run (t + 1) = run t ∨ ∃ a, step (run t) a = some (run (t + 1))

theorem Run.reach {run : Nat → σ} (h : Run step run) (t : Nat) : Reach step anyStep (run 0) (run t) := by
  induction t with
  | zero => exact Reach.refl
  | succ t ih =>
    rcases h t with hsame | ⟨a, ha⟩
    · rw [hsame]
      exact ih
    · exact Reach.step a ih trivial ha

/-- The run that takes the actions of a list, as far as none of them is blocked, and then none. -/
def runThrough (step : σ → α → Option σ) : σ → List α → Nat → σ
  | s, [], _ => s
  | s, _ :: _, 0 => s
  | s, a :: as, t + 1 =>
    match step s a with
    | none => s
    | some s' => runThrough step s' as t

theorem runThrough_zero (s : σ) (as : List α) : runThrough step s as 0 = s := by
  cases as <;> rfl

theorem run_runThrough (s : σ) (as : List α) : Run step (runThrough step s as) := by
  intro t
  induction as generalizing s t with
  | nil => exact Or.inl rfl
  | cons a as ih =>
    cases hs : step s a with
    | none => cases t <;> simp [runThrough, hs]
    | some s' =>
      cases t with
      | zero => exact Or.inr ⟨a, by simp [runThrough, hs, runThrough_zero]⟩
      | succ t => simpa [runThrough, hs] using ih s' t

/-- After some of the actions it is where they lead. -/
theorem runThrough_length {as : List α} (he : exec step s as = some s') (bs : List α) (t : Nat) :
    runThrough step s (as ++ bs) (as.length + t) = runThrough step s' bs t := by
  induction as generalizing s with
  | nil =>
    cases he
    rw [List.nil_append, List.length_nil, Nat.zero_add]
  | cons a as ih =>
    simp only [exec, Option.bind_eq_some_iff] at he
    obtain ⟨s₁, hs₁, he⟩ := he
    have hlen : (a :: as).length + t = as.length + t + 1 := by
      rw [List.length_cons]
      omega
    rw [hlen, List.cons_append, runThrough, hs₁]
    exact ih he

/-- After all of them it stays where they lead. -/
theorem runThrough_end {as : List α} (he : exec step s as = some s') {t : Nat} (ht : as.length ≤ t) :
    runThrough step s as t = s' := by
  have h := runThrough_length he [] (t - as.length)
  rwa [List.append_nil, Nat.add_sub_cancel' ht, runThrough] at h

/-- Each of the actions is a step of the run. -/
theorem runThrough_step {as bs : List α} {a : α} (he : (exec step s (as ++ a :: bs)).isSome) :
    step (runThrough step s (as ++ a :: bs) as.length) a = some (runThrough step s (as ++ a :: bs) (as.length + 1)) := by
  rw [exec_append, Option.isSome_iff_exists] at he
  obtain ⟨t, he⟩ := he
  obtain ⟨s₁, hs₁, he⟩ := Option.bind_eq_some_iff.1 he
  obtain ⟨s₂, hs₂, -⟩ := Option.bind_eq_some_iff.1 he
  have h0 := runThrough_length hs₁ (a :: bs) 0
  rw [Nat.add_zero, runThrough] at h0
  rw [h0, runThrough_length hs₁ (a :: bs) 1]
  simp only [runThrough, hs₂, runThrough_zero]

/-- A count that never falls, stays below a bound and rises again and again until the goal is reached: the goal is reached. -/
theorem eventually_of_bounded {run : Nat → σ} {goal : σ → Prop} {count : σ → Nat} {bound : Nat}
    (hmono : ∀ t, count (run t) ≤ count (run (t + 1))) (hbound : ∀ t, count (run t) ≤ bound)
    (hrise : ∀ t, ¬goal (run t) → ∃ t', t ≤ t' ∧ count (run t') < count (run (t' + 1))) : ∃ t, goal (run t) := by
  by_contra hnever
  have hnot : ∀ t, ¬goal (run t) := fun t ht => hnever ⟨t, ht⟩
  have hmono' : Monotone fun t => count (run t) := monotone_nat_of_le_succ hmono
  have hall : ∀ k, ∃ t, k ≤ count (run t) := by
    intro k
    induction k with
    | zero => exact ⟨0, Nat.zero_le _⟩
    | succ k ih =>
      obtain ⟨t, ht⟩ := ih
      obtain ⟨t', hle, hlt⟩ := hrise t (hnot t)
      exact ⟨t' + 1, (ht.trans (hmono' hle)).trans_lt hlt⟩
  obtain ⟨t, ht⟩ := hall (bound + 1)
  exact absurd (ht.trans (hbound t)) (Nat.not_succ_le_self bound)

end Transition

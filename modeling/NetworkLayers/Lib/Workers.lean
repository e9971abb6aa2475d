import NetworkLayers.Lib.Transition
import Mathlib.Algebra.BigOperators.Group.Finset.Basic
import Mathlib.Algebra.Order.BigOperators.Group.Finset
import Mathlib.Data.Finset.Max
import Mathlib.Data.Fintype.Basic

/-!
# Threads that wait for each other

Threads run programs on resources. Each resource has places: a program takes a free one and waits where there is none, gives one
back, or fills one it has taken with a message, which the worker of the resource is there to serve. A mutex is a resource of one
place without messages; a slot or a bounded queue is one whose worker gives each place back.

Where the resources are ranked, programs take them in the order of their ranks, and a worker takes only what is ranked above the
resource it serves, no state is a deadlock, and every run without new calls ends with all at rest.
-/

namespace Workers

open Transition

/-- An operation of a program. -/
inductive Op (ρ : Type*) where
  | take (r : ρ)
  | give (r : ρ)
  | post (r : ρ)
  deriving DecidableEq, Repr

/-- What the threads have to do yet, and the places of the resources that are free and that are filled. -/
structure State (τ ρ : Type*) where
  todo : τ → List (Op ρ)
  free : ρ → Nat
  full : ρ → Nat

/-- A thread does its next operation, the worker of a resource begins to serve a message, or a thread is called. -/
inductive Action (τ ρ : Type*) where
  | run (t : τ)
  | serve (r : ρ) (p : List (Op ρ))
  | call (t : τ) (p : List (Op ρ))
  deriving DecidableEq, Repr

variable {τ ρ : Type*}

/-- What an operation costs, with what a message it posts leads to. -/
def Op.cost (cost : ρ → Nat) : Op ρ → Nat
  | .take _ | .give _ => 1
  | .post r => 1 + cost r

/-- What a program costs. -/
def size (cost : ρ → Nat) : List (Op ρ) → Nat
  | [] => 0
  | op :: p => op.cost cost + size cost p

@[simp] theorem size_nil (cost : ρ → Nat) : size cost [] = 0 := rfl

@[simp] theorem size_cons (cost : ρ → Nat) (op : Op ρ) (p : List (Op ρ)) : size cost (op :: p) = op.cost cost + size cost p := rfl

@[simp] theorem size_append (cost : ρ → Nat) (p q : List (Op ρ)) : size cost (p ++ q) = size cost p + size cost q := by
  induction p with
  | nil => simp
  | cons op p ih => simp [ih, Nat.add_assoc]

variable [DecidableEq τ] [DecidableEq ρ]

namespace State

/-- The next operation of a thread. -/
def run (s : State τ ρ) (t : τ) : Option (State τ ρ) :=
  match s.todo t with
  | [] => none
  | .take r :: p =>
    if s.free r = 0 then none
    else some { s with todo := Function.update s.todo t p, free := Function.update s.free r (s.free r - 1) }
  | .give r :: p => some { s with todo := Function.update s.todo t p, free := Function.update s.free r (s.free r + 1) }
  | .post r :: p => some { s with todo := Function.update s.todo t p, full := Function.update s.full r (s.full r + 1) }

/-- A thread that has nothing to do begins a program. -/
def start (s : State τ ρ) (t : τ) (p : List (Op ρ)) : Option (State τ ρ) :=
  if s.todo t = [] then some { s with todo := Function.update s.todo t p } else none

/-- A step. -/
def step (worker : ρ → Option τ) (s : State τ ρ) : Action τ ρ → Option (State τ ρ)
  | .run t => s.run t
  | .serve r p =>
    if s.full r = 0 then none
    else (worker r).bind fun t => { s with full := Function.update s.full r (s.full r - 1) }.start t p
  | .call t p => s.start t p

/-- No thread has anything to do and no message waits. -/
def AtRest (s : State τ ρ) : Prop := (∀ t, s.todo t = []) ∧ ∀ r, s.full r = 0

instance atRest.decidable [Fintype τ] [Fintype ρ] (s : State τ ρ) : Decidable s.AtRest :=
  inferInstanceAs (Decidable ((∀ t, s.todo t = []) ∧ ∀ r, s.full r = 0))

end State

/-- What a step does. -/
inductive Does (worker : ρ → Option τ) (s : State τ ρ) : Action τ ρ → State τ ρ → Prop where
  | take (t : τ) (r : ρ) (p : List (Op ρ)) (htodo : s.todo t = .take r :: p) (hfree : 0 < s.free r) :
    Does worker s (.run t) { s with todo := Function.update s.todo t p, free := Function.update s.free r (s.free r - 1) }
  | give (t : τ) (r : ρ) (p : List (Op ρ)) (htodo : s.todo t = .give r :: p) :
    Does worker s (.run t) { s with todo := Function.update s.todo t p, free := Function.update s.free r (s.free r + 1) }
  | post (t : τ) (r : ρ) (p : List (Op ρ)) (htodo : s.todo t = .post r :: p) :
    Does worker s (.run t) { s with todo := Function.update s.todo t p, full := Function.update s.full r (s.full r + 1) }
  | serve (t : τ) (r : ρ) (p : List (Op ρ)) (hfull : 0 < s.full r) (hworker : worker r = some t) (htodo : s.todo t = []) :
    Does worker s (.serve r p)
      { s with todo := Function.update s.todo t p, full := Function.update s.full r (s.full r - 1) }
  | call (t : τ) (p : List (Op ρ)) (htodo : s.todo t = []) :
    Does worker s (.call t p) { s with todo := Function.update s.todo t p }

variable {worker : ρ → Option τ} {s s' : State τ ρ} {a : Action τ ρ}

theorem step_does (h : s.step worker a = some s') : Does worker s a s' := by
  cases a with
  | run t =>
    simp only [State.step, State.run] at h
    split at h
    · cases h
    · rename_i r p htodo
      split at h
      · cases h
      · rename_i hfree
        cases h
        exact .take t r p htodo (Nat.pos_of_ne_zero hfree)
    · rename_i r p htodo
      cases h
      exact .give t r p htodo
    · rename_i r p htodo
      cases h
      exact .post t r p htodo
  | serve r p =>
    simp only [State.step] at h
    split at h
    · cases h
    · rename_i hfull
      obtain ⟨t, hworker, hstart⟩ := Option.bind_eq_some_iff.1 h
      simp only [State.start] at hstart
      split at hstart
      · rename_i htodo
        cases hstart
        exact .serve t r p (Nat.pos_of_ne_zero hfull) hworker htodo
      · cases hstart
  | call t p =>
    simp only [State.step, State.start] at h
    split at h
    · rename_i htodo
      cases h
      exact .call t p htodo
    · cases h

/-! ## What a program gives back -/

/-- The places of `r` that an operation gives back, less those it takes. -/
def Op.net (r : ρ) : Op ρ → Int
  | .take r' => if r' = r then -1 else 0
  | .give r' | .post r' => if r' = r then 1 else 0

/-- The places of `r` that a program gives back, less those it takes. -/
def net (r : ρ) : List (Op ρ) → Int
  | [] => 0
  | op :: p => op.net r + net r p

@[simp] theorem net_nil (r : ρ) : net r [] = 0 := rfl

@[simp] theorem net_cons (r : ρ) (op : Op ρ) (p : List (Op ρ)) : net r (op :: p) = op.net r + net r p := rfl

@[simp] theorem net_append (r : ρ) (p q : List (Op ρ)) : net r (p ++ q) = net r p + net r q := by
  induction p with
  | nil => simp
  | cons op p ih => simp [ih, Int.add_assoc]

/-- The resources of which a program gives back a place it has not taken itself: the thread has taken it before. -/
def owed : List (Op ρ) → List ρ
  | [] => []
  | .take r :: p => (owed p).erase r
  | .give r :: p | .post r :: p => r :: owed p

theorem net_le_count (r : ρ) (p : List (Op ρ)) : net r p ≤ (owed p).count r := by
  induction p with
  | nil => exact le_refl _
  | cons op p ih =>
    cases op with
    | take r' =>
      have hcount : (owed p).count r ≤ ((owed p).erase r').count r + if r' = r then 1 else 0 := by
        rw [List.count_erase]
        by_cases h : r' = r
        · simp only [h, beq_self_eq_true, if_true]
          omega
        · simp [h]
      simp only [net_cons, Op.net, owed]
      split_ifs at hcount ⊢ <;> omega
    | give r' | post r' =>
      simp only [net_cons, Op.net, owed, List.count_cons, beq_iff_eq]
      split_ifs <;> push_cast <;> omega

theorem mem_owed_of_net {r : ρ} {p : List (Op ρ)} (h : 0 < net r p) : r ∈ owed p := by
  have hcount := net_le_count r p
  exact List.count_pos_iff.1 (by omega)

theorem net_le_zero {r : ρ} {p : List (Op ρ)} (h : r ∉ owed p) : net r p ≤ 0 :=
  not_lt.1 fun hpos => h (mem_owed_of_net hpos)

/-! ## The order of the ranks -/

section Ranks

variable (rank credit : ρ → Nat)

/-- Wherever the program takes a place, all that the thread then has is ranked below it; of the places there are at rest, it does not
have all. -/
def Ordered : List (Op ρ) → Prop
  | [] => True
  | .take r :: p => (net r p ≤ credit r ∧ ∀ r' ∈ owed (.take r :: p), rank r' < rank r) ∧ Ordered p
  | .give _ :: p | .post _ :: p => Ordered p

theorem Ordered.tail {rank credit : ρ → Nat} {op : Op ρ} {p : List (Op ρ)} (h : Ordered rank credit (op :: p)) :
    Ordered rank credit p := by
  cases op with
  | take r => exact h.2
  | give r | post r => exact h

/-- A program that takes only what is ranked from `l` on, and between the taking and the giving back of a resource only what is
ranked above it. What it fills is served. -/
inductive Nested (hasWorker : ρ → Prop) : Nat → List (Op ρ) → Prop where
  | nil (l : Nat) : Nested hasWorker l []
  | append {l : Nat} {p q : List (Op ρ)} (hp : Nested hasWorker l p) (hq : Nested hasWorker l q) : Nested hasWorker l (p ++ q)
  | give {l : Nat} (r : ρ) {p : List (Op ρ)} (hl : l ≤ rank r) (hcredit : 0 < credit r)
    (hp : Nested hasWorker (rank r + 1) p) : Nested hasWorker l (.take r :: p ++ [.give r])
  | post {l : Nat} (r : ρ) {p : List (Op ρ)} (hl : l ≤ rank r) (hcredit : 0 < credit r) (hworker : hasWorker r)
    (hp : Nested hasWorker (rank r + 1) p) : Nested hasWorker l (.take r :: p ++ [.post r])

variable {rank credit} {hasWorker : ρ → Prop} {l : Nat} {p q : List (Op ρ)}

theorem Nested.net (h : Nested rank credit hasWorker l p) (r : ρ) : net r p = 0 := by
  induction h with
  | nil => rfl
  | append _ _ ihp ihq => rw [net_append, ihp, ihq, add_zero]
  | give r' _ _ _ ih | post r' _ _ _ _ ih =>
    simp only [List.cons_append, net_cons, net_append, net_nil, ih, Op.net]
    split <;> rfl

/-- It gives back no more than it takes. -/
theorem Nested.owed_append (h : Nested rank credit hasWorker l p) (q : List (Op ρ)) : owed (p ++ q) = owed q := by
  induction h generalizing q with
  | nil => rfl
  | append _ _ ihp ihq => rw [List.append_assoc, ihp, ihq]
  | give r _ _ _ ih | post r _ _ _ _ ih =>
    simp only [List.cons_append, List.append_assoc, List.nil_append, owed, ih, List.erase_cons_head]

theorem Nested.owed (h : Nested rank credit hasWorker l p) : owed p = [] := by
  simpa [Workers.owed] using h.owed_append []

/-- Before a program that gives back only what is ranked below it, it keeps the order. -/
theorem Nested.ordered_append (h : Nested rank credit hasWorker l p) (hq : Ordered rank credit q)
    (howed : ∀ r ∈ Workers.owed q, rank r < l) : Ordered rank credit (p ++ q) := by
  induction h generalizing q with
  | nil => exact hq
  | append _ hn ihp ihq =>
    rw [List.append_assoc]
    refine ihp (ihq hq howed) ?_
    rwa [hn.owed_append]
  | @give l r p hl hcredit hn ih | @post l r p hl hcredit _ hn ih =>
    have hnot : r ∉ Workers.owed q := fun hr => absurd (howed r hr) (by omega)
    have hnet := net_le_zero hnot
    simp only [List.cons_append, List.append_assoc, List.nil_append, Ordered]
    refine ⟨⟨?_, ?_⟩, ih hq ?_⟩
    · simp only [net_append, net_cons, hn.net, Op.net, if_true]
      omega
    · intro r' hr'
      simp only [Workers.owed, hn.owed_append, List.erase_cons_head] at hr'
      have := howed r' hr'
      omega
    · intro r' hr'
      rcases List.mem_cons.1 hr' with rfl | hmem
      · exact Nat.lt_succ_self _
      · have := howed r' hmem
        omega

theorem Nested.ordered (h : Nested rank credit hasWorker l p) : Ordered rank credit p := by
  simpa using h.ordered_append (q := []) trivial (by simp [Workers.owed])

omit [DecidableEq ρ] in
theorem Nested.le_rank {r : ρ} (h : Nested rank credit hasWorker l p) (hr : Op.take r ∈ p) : l ≤ rank r := by
  induction h with
  | nil => cases hr
  | append _ _ ihp ihq => exact (List.mem_append.1 hr).elim ihp ihq
  | give r' hl _ _ ih | post r' hl _ _ _ ih =>
    simp only [List.cons_append, List.mem_cons, List.mem_append, Op.take.injEq, reduceCtorEq, List.not_mem_nil, or_false] at hr
    rcases hr with rfl | hr
    · exact hl
    · have := ih hr
      omega

omit [DecidableEq ρ] in
theorem Nested.hasWorker_of_mem {r : ρ} (h : Nested rank credit hasWorker l p) (hr : Op.post r ∈ p) : hasWorker r := by
  induction h with
  | nil => cases hr
  | append _ _ ihp ihq => exact (List.mem_append.1 hr).elim ihp ihq
  | give r' _ _ _ ih =>
    simp only [List.cons_append, List.mem_cons, List.mem_append, reduceCtorEq, List.not_mem_nil, or_false, false_or] at hr
    exact ih hr
  | post r' _ _ hs _ ih =>
    simp only [List.cons_append, List.mem_cons, List.mem_append, Op.post.injEq, reduceCtorEq, List.not_mem_nil, or_false,
      false_or] at hr
    rcases hr with hr | rfl
    · exact ih hr
    · exact hs

end Ranks

/-! ## Systems -/

/-- The programs of a system: which thread serves which resource, what it runs for a message, and what threads are called for. The
fields on them say that they are written in the order of the ranks: a worker gives the place of the message back and takes what is
ranked above it, a call gives back what it takes, but for a thread that rests with a place, fills it and takes the next one. -/
structure System (τ ρ : Type*) [DecidableEq ρ] where
  worker : ρ → Option τ
  rank : ρ → Nat
  /-- the places that are free at rest -/
  credit : ρ → Nat
  /-- more than what is run for a message costs -/
  cost : ρ → Nat
  serves : ρ → List (Op ρ) → Prop
  calls : τ → List (Op ρ) → Prop
  worker_inj : ∀ r r' t, worker r = some t → worker r' = some t → r = r'
  exists_serves : ∀ r, (worker r).isSome → ∃ p, serves r p
  serves_nested : ∀ r p, serves r p → ∃ p₁ p₂, p = p₁ ++ .give r :: p₂ ∧
    Nested rank credit (fun r => (worker r).isSome) (rank r + 1) p₁ ∧
    Nested rank credit (fun r => (worker r).isSome) (rank r + 1) p₂
  serves_cost : ∀ r p, serves r p → size cost p < cost r
  calls_nested : ∀ t p, calls t p → (∀ r, worker r ≠ some t) ∧
    (Nested rank credit (fun r => (worker r).isSome) 0 p ∨ ∃ r, p = [.post r, .take r] ∧ credit r = 0 ∧ (worker r).isSome)

namespace System

variable (S : System τ ρ)

/-- The step is one of the system: the program that is begun is. -/
def Allowed (_ : State τ ρ) : Action τ ρ → Prop
  | .run _ => True
  | .serve r p => S.serves r p
  | .call t p => S.calls t p

/-- It calls no thread. -/
def Inner (_ : State τ ρ) : Action τ ρ → Prop
  | .run _ => True
  | .serve r p => S.serves r p
  | .call _ _ => False

variable {S}

omit [DecidableEq τ] in
theorem Inner.allowed (h : S.Inner s a) : S.Allowed s a := by
  cases a with
  | run t => trivial
  | serve r p => exact h
  | call t p => exact h.elim

omit [DecidableEq τ] in
/-- A program of the system keeps the order of the ranks, and gives back what it takes and the place of the message. -/
theorem serves_does {r : ρ} {p : List (Op ρ)} (h : S.serves r p) :
    Ordered S.rank S.credit p ∧ (∀ r', net r' p = if r' = r then 1 else 0) ∧ owed p = [r] ∧
      (∀ r', Op.take r' ∈ p → S.rank r < S.rank r') ∧ ∀ r', Op.post r' ∈ p → (S.worker r').isSome := by
  obtain ⟨p₁, p₂, rfl, hn₁, hn₂⟩ := S.serves_nested r p h
  have howed : owed (.give r :: p₂) = [r] := by rw [owed, hn₂.owed]
  refine ⟨hn₁.ordered_append hn₂.ordered ?_, ?_, by rw [hn₁.owed_append, howed], ?_, ?_⟩
  · intro r' hr'
    rw [howed, List.mem_singleton] at hr'
    rw [hr']
    exact Nat.lt_succ_self _
  · intro r'
    simp only [net_append, net_cons, hn₁.net, hn₂.net, Op.net, eq_comm (a := r)]
    split <;> rfl
  · intro r' hr'
    simp only [List.mem_append, List.mem_cons, reduceCtorEq, false_or] at hr'
    exact hr'.elim hn₁.le_rank hn₂.le_rank
  · intro r' hr'
    simp only [List.mem_append, List.mem_cons, reduceCtorEq, false_or] at hr'
    exact hr'.elim hn₁.hasWorker_of_mem hn₂.hasWorker_of_mem

omit [DecidableEq τ] in
/-- So does what a thread is called for. -/
theorem calls_does {t : τ} {p : List (Op ρ)} (h : S.calls t p) :
    Ordered S.rank S.credit p ∧ (∀ r, net r p = 0) ∧ (∀ r ∈ owed p, S.credit r = 0) ∧
      ∀ r, Op.post r ∈ p → (S.worker r).isSome := by
  obtain ⟨-, hn | ⟨r, rfl, hcredit, hworker⟩⟩ := S.calls_nested t p h
  · exact ⟨hn.ordered, hn.net, by simp [hn.owed], fun r hr => hn.hasWorker_of_mem hr⟩
  · refine ⟨⟨⟨by simp, by simp [owed]⟩, trivial⟩, ?_, ?_, ?_⟩
    · intro r'
      simp only [net_cons, net_nil, Op.net]
      split <;> rfl
    · simpa [owed] using hcredit
    · simpa using hworker

end System

/-! ## The places of a resource -/

section Total

variable [Fintype τ]

/-- The places of a resource that are free, filled, or to be given back yet. -/
def State.total (s : State τ ρ) (r : ρ) : Int := s.free r + s.full r + ∑ t, net r (s.todo t)

omit [DecidableEq ρ] in
/-- A sum over the threads when one of them goes on. -/
theorem sum_update {M : Type*} [AddCommMonoid M] (f : List (Op ρ) → M) (todo : τ → List (Op ρ)) (t : τ) (p : List (Op ρ)) :
    ∑ t', f (Function.update todo t p t') + f (todo t) = ∑ t', f (todo t') + f p := by
  have hrest : ∑ t' ∈ Finset.univ.erase t, f (Function.update todo t p t') = ∑ t' ∈ Finset.univ.erase t, f (todo t') := by
    refine Finset.sum_congr rfl fun t' ht' => ?_
    rw [Function.update_of_ne (Finset.ne_of_mem_erase ht')]
  rw [← Finset.add_sum_erase _ _ (Finset.mem_univ t), ← Finset.add_sum_erase _ (fun t' => f (todo t')) (Finset.mem_univ t), hrest,
    Function.update_self]
  ac_rfl

/-- The places a step adds: none, but those a program that is begun gives back without having taken them. -/
def Action.adds (r : ρ) : Action τ ρ → Int
  | .run _ => 0
  | .serve r' p => net r p - if r = r' then 1 else 0
  | .call _ p => net r p

theorem total_step (h : s.step worker a = some s') (r : ρ) : s'.total r = s.total r + a.adds r := by
  have hsum := fun t p => sum_update (net r) s.todo t p
  cases step_does h with
  | take t r' p htodo hfree =>
    have ht := hsum t p
    rw [htodo, net_cons, Op.net] at ht
    simp only [State.total, Action.adds]
    by_cases hr : r' = r
    · subst hr
      simp only [Function.update_self, if_true] at ht ⊢
      omega
    · simp only [Function.update_of_ne (Ne.symm hr), if_neg hr] at ht ⊢
      omega
  | give t r' p htodo | post t r' p htodo =>
    have ht := hsum t p
    rw [htodo, net_cons, Op.net] at ht
    simp only [State.total, Action.adds]
    by_cases hr : r' = r
    · subst hr
      simp only [Function.update_self, if_true] at ht ⊢
      omega
    · simp only [Function.update_of_ne (Ne.symm hr), if_neg hr] at ht ⊢
      omega
  | serve t r' p hfull hworker htodo =>
    have ht := hsum t p
    rw [htodo, net_nil] at ht
    simp only [State.total, Action.adds]
    by_cases hr : r' = r
    · subst hr
      simp only [Function.update_self, if_true]
      omega
    · simp only [Function.update_of_ne (Ne.symm hr), if_neg (Ne.symm hr)]
      omega
  | call t p htodo =>
    have ht := hsum t p
    rw [htodo, net_nil] at ht
    simp only [State.total, Action.adds]
    omega

end Total

/-! ## No deadlock -/

section Sound

variable [Fintype τ] {S : System τ ρ}

/-- What holds of every state of a system. -/
structure Sound (S : System τ ρ) (s : State τ ρ) : Prop where
  total : ∀ r, s.total r = S.credit r
  ordered : ∀ t, Ordered S.rank S.credit (s.todo t)
  above : ∀ t r r', S.worker r = some t → Op.take r' ∈ s.todo t → S.rank r < S.rank r'
  posts : ∀ t r, Op.post r ∈ s.todo t → (S.worker r).isSome
  full : ∀ r, 0 < s.full r → (S.worker r).isSome

/-- What holds of what a thread has to do. -/
def Keeps (S : System τ ρ) (t : τ) (p : List (Op ρ)) : Prop :=
  Ordered S.rank S.credit p ∧ (∀ r r', S.worker r = some t → Op.take r' ∈ p → S.rank r < S.rank r') ∧
    ∀ r, Op.post r ∈ p → (S.worker r).isSome

theorem Sound.step (hs : Sound S s) (ha : S.Allowed s a) (h : s.step S.worker a = some s') : Sound S s' := by
  have htotal : ∀ r, s'.total r = S.credit r := by
    intro r
    have hadds : a.adds r = 0 := by
      cases a with
      | run t => rfl
      | serve r' p => rw [Action.adds, (System.serves_does ha).2.1 r, sub_self]
      | call t p => exact (System.calls_does ha).2.1 r
    rw [total_step h, hadds, add_zero, hs.total r]
  -- a thread that goes on keeps what holds of all that it had to do
  have hrest : ∀ {t op p}, s.todo t = op :: p → Keeps S t p := by
    intro t op p htodo
    refine ⟨(htodo ▸ hs.ordered t).tail, fun r r' hr hr' => hs.above t r r' hr ?_, fun r hr => hs.posts t r ?_⟩ <;> rw [htodo]
    · exact List.mem_cons_of_mem op hr'
    · exact List.mem_cons_of_mem op hr
  have hset : ∀ {t p free full}, s' = ⟨Function.update s.todo t p, free, full⟩ → Keeps S t p →
      (∀ r, 0 < full r → (S.worker r).isSome) → Sound S s' := by
    rintro t p free full rfl ⟨hordered, habove, hposts⟩ hfull
    refine ⟨htotal, fun t' => ?_, fun t' r r' hr hr' => ?_, fun t' r hr => ?_, hfull⟩ <;> by_cases ht : t' = t
    · subst ht
      simpa using hordered
    · simpa [Function.update_of_ne ht] using hs.ordered t'
    · subst ht
      exact habove r r' hr (by simpa using hr')
    · exact hs.above t' r r' hr (by simpa [Function.update_of_ne ht] using hr')
    · subst ht
      exact hposts r (by simpa using hr)
    · exact hs.posts t' r (by simpa [Function.update_of_ne ht] using hr)
  cases step_does h with
  | take t r p htodo hfree => exact hset rfl (hrest htodo) hs.full
  | give t r p htodo => exact hset rfl (hrest htodo) hs.full
  | post t r p htodo =>
    refine hset rfl (hrest htodo) fun r' hr' => ?_
    by_cases hr : r' = r
    · subst hr
      exact hs.posts t r' (by rw [htodo]; exact List.mem_cons_self)
    · exact hs.full r' (by simpa [Function.update_of_ne hr] using hr')
  | serve t r p hfull hworker htodo =>
    obtain ⟨hordered, -, -, habove, hposts⟩ := System.serves_does ha
    refine hset rfl ⟨hordered, fun r' r'' hr' hr'' => ?_, hposts⟩ fun r' hr' => ?_
    · rw [S.worker_inj r' r t hr' hworker]
      exact habove r'' hr''
    · by_cases hr : r' = r
      · rw [hr, hworker]
        rfl
      · exact hs.full r' (by simpa [Function.update_of_ne hr] using hr')
  | call t p htodo =>
    obtain ⟨hordered, -, -, hposts⟩ := System.calls_does ha
    exact hset rfl ⟨hordered, fun r r' hr _ => absurd hr ((S.calls_nested t p ha).1 r), hposts⟩ hs.full

/-- The rank of what a thread is about to take. -/
def headRank (rank : ρ → Nat) : List (Op ρ) → Nat
  | .take r :: _ => rank r
  | _ => 0

omit [Fintype τ] in
/-- A thread that cannot go on waits for a place. -/
theorem blocked_cases {t : τ} (hne : s.todo t ≠ []) (h : s.step worker (.run t) = none) :
    ∃ r p, s.todo t = .take r :: p ∧ s.free r = 0 := by
  simp only [State.step, State.run] at h
  split at h
  · rename_i hnil
    exact absurd hnil hne
  · rename_i r p htodo
    split at h
    · rename_i hfree
      exact ⟨r, p, htodo, hfree⟩
    · cases h
  · cases h
  · cases h

/-- Where a place is waited for, another thread is to give one back, or a message is there. -/
theorem Sound.awaited (hs : Sound S s) {t : τ} {r : ρ} {p : List (Op ρ)} (htodo : s.todo t = .take r :: p) (hfree : s.free r = 0) :
    0 < s.full r ∨ ∃ t', 0 < net r (s.todo t') := by
  by_contra hnone
  obtain ⟨hfull, hnet⟩ := not_or.1 hnone
  have hle : ∀ t', net r (s.todo t') ≤ 0 := fun t' => not_lt.1 fun hpos => hnet ⟨t', hpos⟩
  have hcredit := (htodo ▸ hs.ordered t : Ordered S.rank S.credit (.take r :: p)).1.1
  have ht : net r (s.todo t) = net r p - 1 := by
    rw [htodo, net_cons, Op.net, if_pos rfl]
    omega
  have hsum : ∑ t', net r (s.todo t') ≤ net r (s.todo t) := by
    rw [← Finset.add_sum_erase _ _ (Finset.mem_univ t)]
    have := Finset.sum_nonpos fun t' (_ : t' ∈ Finset.univ.erase t) => hle t'
    omega
  have htotal := hs.total r
  rw [State.total] at htotal
  omega

/-- A state in which nothing can be done is at rest. -/
theorem Sound.atRest (hs : Sound S s) (hstuck : ∀ a, S.Inner s a → s.step S.worker a = none) : s.AtRest := by
  -- the worker of a message serves it, or has something to do
  have hserve : ∀ r, 0 < s.full r → ∃ t, S.worker r = some t ∧ s.todo t ≠ [] := by
    intro r hr
    obtain ⟨t, ht⟩ := Option.isSome_iff_exists.1 (hs.full r hr)
    refine ⟨t, ht, fun hnil => ?_⟩
    obtain ⟨p, hp⟩ := S.exists_serves r (by rw [ht]; rfl)
    have := hstuck (.serve r p) hp
    simp [State.step, hr.ne', ht, State.start, hnil] at this
  have hidle : ∀ t, s.todo t = [] := by
    by_contra hbusy
    obtain ⟨t₀, ht₀⟩ := not_forall.1 hbusy
    -- of the threads that have something to do, the one that waits for what is ranked highest
    obtain ⟨t, ht, hmax⟩ := (Finset.univ.filter fun t => s.todo t ≠ []).exists_max_image (fun t => headRank S.rank (s.todo t))
      ⟨t₀, by simpa using ht₀⟩
    have hblocked : ∀ t, s.todo t ≠ [] → ∃ r p, s.todo t = .take r :: p ∧ s.free r = 0 := fun t hne =>
      blocked_cases hne (hstuck (.run t) trivial)
    have hle : ∀ {t' r' p'}, s.todo t' = .take r' :: p' → S.rank r' ≤ headRank S.rank (s.todo t) := by
      intro t' r' p' htodo
      have := hmax t' (by simp [htodo])
      rwa [htodo] at this
    obtain ⟨r, p, htodo, hfree⟩ := hblocked t (by simpa using ht)
    rw [htodo, headRank] at hle
    rcases hs.awaited htodo hfree with hfull | ⟨t', hnet⟩
    · obtain ⟨t', hworker, hne⟩ := hserve r hfull
      obtain ⟨r', p', htodo', -⟩ := hblocked t' hne
      have habove := hs.above t' r r' hworker (by rw [htodo']; exact List.mem_cons_self)
      exact absurd (hle htodo') (not_le.2 habove)
    · have hne : s.todo t' ≠ [] := by
        intro hnil
        rw [hnil, net_nil] at hnet
        exact absurd hnet (lt_irrefl 0)
      obtain ⟨r', p', htodo', -⟩ := hblocked t' hne
      have howed : r ∈ owed (.take r' :: p') := htodo' ▸ mem_owed_of_net hnet
      have hrank := (htodo' ▸ hs.ordered t' : Ordered S.rank S.credit (.take r' :: p')).1.2 r howed
      exact absurd (hle htodo') (not_le.2 hrank)
  refine ⟨hidle, fun r => Nat.eq_zero_of_not_pos fun hr => ?_⟩
  obtain ⟨t, -, hne⟩ := hserve r hr
  exact hne (hidle t)

/-! ## Every run without calls ends -/

section Ends

variable [Fintype ρ]

/-- What is left to do. -/
def State.left (s : State τ ρ) (cost : ρ → Nat) : Nat := ∑ t, size cost (s.todo t) + ∑ r, s.full r * cost r

omit [DecidableEq τ] [Fintype τ] in
/-- A sum over the resources when the messages of one of them change. -/
theorem sum_full_update (cost full : ρ → Nat) (r : ρ) (n : Nat) :
    ∑ r', Function.update full r n r' * cost r' + full r * cost r = ∑ r', full r' * cost r' + n * cost r := by
  have hrest : ∑ r' ∈ Finset.univ.erase r, Function.update full r n r' * cost r' =
      ∑ r' ∈ Finset.univ.erase r, full r' * cost r' := by
    refine Finset.sum_congr rfl fun r' hr' => ?_
    rw [Function.update_of_ne (Finset.ne_of_mem_erase hr')]
  rw [← Finset.add_sum_erase _ _ (Finset.mem_univ r), ← Finset.add_sum_erase _ (fun r' => full r' * cost r') (Finset.mem_univ r),
    hrest, Function.update_self]
  ac_rfl

theorem left_step (ha : S.Inner s a) (h : s.step S.worker a = some s') : s'.left S.cost < s.left S.cost := by
  have hsum := fun t p => sum_update (size S.cost) s.todo t p
  cases step_does h with
  | take t r p htodo _ | give t r p htodo =>
    have ht := hsum t p
    rw [htodo, size_cons, Op.cost] at ht
    simp only [State.left]
    omega
  | post t r p htodo =>
    have ht := hsum t p
    have hr := sum_full_update S.cost s.full r (s.full r + 1)
    rw [htodo, size_cons, Op.cost] at ht
    rw [Nat.add_mul, Nat.one_mul] at hr
    simp only [State.left]
    omega
  | serve t r p hfull hworker htodo =>
    have ht := hsum t p
    have hr := sum_full_update S.cost s.full r (s.full r - 1)
    have hone : (s.full r - 1) * S.cost r + S.cost r = s.full r * S.cost r := by
      rw [← Nat.succ_mul, Nat.succ_eq_add_one, Nat.sub_add_cancel hfull]
    have hcost := S.serves_cost r p ha
    rw [htodo, size_nil] at ht
    simp only [State.left]
    omega
  | call t p htodo => exact ha.elim

/-- From every state of a system a run without calls leads to rest. -/
theorem Sound.settles (hs : Sound S s) : ∃ s', Reach (State.step S.worker) S.Inner s s' ∧ s'.AtRest := by
  induction hn : s.left S.cost using Nat.strong_induction_on generalizing s with
  | _ n ih =>
    by_cases hstuck : ∀ a, S.Inner s a → s.step S.worker a = none
    · exact ⟨s, Reach.refl, hs.atRest hstuck⟩
    · obtain ⟨a, hnone⟩ := not_forall.1 hstuck
      obtain ⟨ha, hne⟩ := Classical.not_imp.1 hnone
      obtain ⟨s₁, hs₁⟩ := Option.ne_none_iff_exists'.1 hne
      obtain ⟨s', hreach, hrest⟩ := ih _ (hn ▸ left_step ha hs₁) (hs.step ha.allowed hs₁) rfl
      exact ⟨s', (Reach.step a Reach.refl ha hs₁).trans hreach, hrest⟩

end Ends

end Sound

/-! ## Places that are gone -/

/-- A resource of which no place is free, and none is with a thread: its messages, if any, wait for a worker that itself waits for such
a resource. `lent` are the resources of which a thread that rests may have a place. -/
inductive Dead (lent : ρ → Prop) (worker : ρ → Option τ) (s : State τ ρ) : ρ → Prop where
  | lost (r : ρ) (hr : ¬lent r) (hfree : s.free r = 0) (howed : ∀ t, r ∉ owed (s.todo t)) (hfull : s.full r = 0) :
    Dead lent worker s r
  | stuck (r r' : ρ) (t : τ) (p : List (Op ρ)) (hr : ¬lent r) (hfree : s.free r = 0) (howed : ∀ t, r ∉ owed (s.todo t))
    (hworker : worker r = some t) (htodo : s.todo t = .take r' :: p) (h : Dead lent worker s r') : Dead lent worker s r

variable {lent : ρ → Prop}

omit [DecidableEq τ] in
theorem Dead.free {r : ρ} (h : Dead lent worker s r) : s.free r = 0 := by
  cases h with
  | lost _ _ hfree => exact hfree
  | stuck _ _ _ _ _ hfree => exact hfree

omit [DecidableEq τ] in
theorem Dead.not_lent {r : ρ} (h : Dead lent worker s r) : ¬lent r := by
  cases h with
  | lost _ hr => exact hr
  | stuck _ _ _ _ hr => exact hr

omit [DecidableEq τ] in
theorem Dead.not_owed {r : ρ} (h : Dead lent worker s r) (t : τ) : r ∉ owed (s.todo t) := by
  cases h with
  | lost _ _ _ howed => exact howed t
  | stuck _ _ _ _ _ _ howed => exact howed t

/-- Who waits for a place of it does so for good. -/
theorem Dead.waits {r : ρ} {t : τ} {p : List (Op ρ)} (h : Dead lent worker s r) (htodo : s.todo t = .take r :: p)
    (hs : s.step worker a = some s') : s'.todo t = .take r :: p := by
  have hset : ∀ t' q, s.todo t' = [] ∨ (∃ op q', s.todo t' = op :: q' ∧ op ≠ .take r) →
      Function.update s.todo t' q t = .take r :: p := by
    intro t' q hq
    have hne : t ≠ t' := by
      rintro rfl
      rcases hq with hnil | ⟨op, q', hcons, hop⟩
      · rw [hnil] at htodo
        cases htodo
      · rw [hcons, List.cons.injEq] at htodo
        exact hop htodo.1
    rw [Function.update_of_ne hne, htodo]
  cases step_does hs with
  | take t' r' q hq hfree =>
    refine hset t' q (Or.inr ⟨_, q, hq, ?_⟩)
    rintro hop
    rw [Op.take.inj hop, h.free] at hfree
    exact absurd hfree (lt_irrefl 0)
  | give t' r' q hq => exact hset t' q (Or.inr ⟨_, q, hq, by simp⟩)
  | post t' r' q hq => exact hset t' q (Or.inr ⟨_, q, hq, by simp⟩)
  | serve t' r' q _ _ hq => exact hset t' q (Or.inl hq)
  | call t' q hq => exact hset t' q (Or.inl hq)

/-- The programs that are begun give back no place of `r`, but the one of the message they are begun for. -/
def Action.Spares (r : ρ) : Action τ ρ → Prop
  | .run _ => True
  | .serve r' p => ∀ x ∈ owed p, x = r → x = r'
  | .call _ p => r ∉ owed p

/-- A place that is gone does not come back. -/
theorem Dead.step {r : ρ} (hspares : ∀ r, ¬lent r → a.Spares r) (h : Dead lent worker s r) (hs : s.step worker a = some s') :
    Dead lent worker s' r := by
  -- no place of a resource that is dead comes free or is owed
  have hkeep : ∀ r, Dead lent worker s r → (s.full r = 0 ∨ ∃ t r' p, worker r = some t ∧ s.todo t = .take r' :: p) →
      s'.free r = 0 ∧ (∀ t, r ∉ owed (s'.todo t)) ∧ (s.full r = 0 → s'.full r = 0) := by
    intro r hr hworker
    have hspare := hspares r hr.not_lent
    have hset : ∀ {t q}, r ∉ owed q → ∀ t', r ∉ owed (Function.update s.todo t q t') := by
      intro t q hq t'
      by_cases ht : t' = t
      · rw [ht, Function.update_self]
        exact hq
      · rw [Function.update_of_ne ht]
        exact hr.not_owed t'
    cases step_does hs with
    | take t r' q hq hfree =>
      have hne : r ≠ r' := by
        rintro rfl
        rw [hr.free] at hfree
        exact absurd hfree (lt_irrefl 0)
      have howed := hr.not_owed t
      rw [hq, owed] at howed
      exact ⟨by simpa [Function.update_of_ne hne] using hr.free, hset fun hmem => howed ((List.mem_erase_of_ne hne).2 hmem), id⟩
    | give t r' q hq =>
      have howed := hr.not_owed t
      rw [hq, owed, List.mem_cons, not_or] at howed
      exact ⟨by simpa [Function.update_of_ne howed.1] using hr.free, hset howed.2, id⟩
    | post t r' q hq =>
      have howed := hr.not_owed t
      rw [hq, owed, List.mem_cons, not_or] at howed
      exact ⟨hr.free, hset howed.2, fun hfull => by simpa [Function.update_of_ne howed.1] using hfull⟩
    | serve t r' q hfull hw hq =>
      have hne : r ≠ r' := by
        rintro rfl
        rcases hworker with hzero | ⟨t', r'', p, hw', htodo⟩
        · rw [hzero] at hfull
          exact absurd hfull (lt_irrefl 0)
        · obtain rfl : t = t' := Option.some.inj (hw.symm.trans hw')
          rw [hq] at htodo
          cases htodo
      exact ⟨hr.free, hset fun hmem => hne (hspare r hmem rfl), fun hzero => by simpa [Function.update_of_ne hne] using hzero⟩
    | call t q hq => exact ⟨hr.free, hset hspare, id⟩
  induction h with
  | lost r hr hfree howed hfull =>
    obtain ⟨hfree', howed', hfull'⟩ := hkeep r (.lost r hr hfree howed hfull) (Or.inl hfull)
    exact .lost r hr hfree' howed' (hfull' hfull)
  | stuck r r' t p hr hfree howed hworker htodo hdead ih =>
    obtain ⟨hfree', howed', -⟩ := hkeep r (.stuck r r' t p hr hfree howed hworker htodo hdead)
      (Or.inr ⟨t, r', p, hworker, htodo⟩)
    exact .stuck r r' t p hr hfree' howed' hworker (hdead.waits htodo hs) ih

/-- So whoever waits for it waits in every run. -/
theorem Dead.run {ok : State τ ρ → Action τ ρ → Prop} {r : ρ} {t : τ} {p : List (Op ρ)}
    (hspares : ∀ s a, ok s a → ∀ r, ¬lent r → a.Spares r) (h : Dead lent worker s r) (htodo : s.todo t = .take r :: p)
    (hreach : Reach (State.step worker) ok s s') : s'.todo t = .take r :: p := by
  have hboth : Dead lent worker s' r ∧ s'.todo t = .take r :: p := by
    induction hreach with
    | refl => exact ⟨h, htodo⟩
    | step a _ ha hs ih => exact ⟨ih.1.step (hspares _ a ha) hs, ih.1.waits ih.2 hs⟩
  exact hboth.2

end Workers

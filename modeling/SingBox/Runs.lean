import Mathlib.Data.List.Basic

namespace SingBox.Runs

variable {σ ε : Type}

def run (step : σ → ε → σ) (s : σ) (es : List ε) : σ := es.foldl step s

/-- Every event of the run is taken in a state in which the condition allows
it. The condition looks at the state before the event, never at its result. -/
def Meets (step : σ → ε → σ) (ok : σ → ε → Prop) : σ → List ε → Prop
  | _, [] => True
  | s, e :: es => ok s e ∧ Meets step ok (step s e) es

instance decidableMeets {step : σ → ε → σ} {ok : σ → ε → Prop} [∀ s e, Decidable (ok s e)] :
    ∀ s es, Decidable (Meets step ok s es)
  | _, [] => .isTrue trivial
  | s, e :: es =>
    have : Decidable (Meets step ok (step s e) es) := decidableMeets (step s e) es
    inferInstanceAs (Decidable (ok s e ∧ Meets step ok (step s e) es))

section

variable (step : σ → ε → σ)

@[simp] theorem run_nil (s : σ) : run step s [] = s := rfl

@[simp] theorem run_cons (s : σ) (e : ε) (es : List ε) : run step s (e :: es) = run step (step s e) es := rfl

theorem run_append (s : σ) (xs ys : List ε) : run step s (xs ++ ys) = run step (run step s xs) ys := List.foldl_append

theorem meets_append (ok : σ → ε → Prop) (s : σ) (xs ys : List ε) :
    Meets step ok s (xs ++ ys) ↔ Meets step ok s xs ∧ Meets step ok (run step s xs) ys := by
  induction xs generalizing s with
  | nil => simp [Meets]
  | cons e xs ih => simp [Meets, ih, and_assoc]

end

variable {step : σ → ε → σ} {I : σ → Prop} {es : List ε} {s : σ}

theorem run_keeps {ok} (hst : ∀ s, ∀ e ∈ es, ok s e → I s → I (step s e)) (h0 : I s) (h : Meets step ok s es) :
    I (run step s es) := by
  induction es generalizing s with
  | nil => exact h0
  | cons e es ih =>
    refine ih (fun s e' he' => hst s e' (List.mem_cons_of_mem _ he')) ?_ h.2
    exact hst s e List.mem_cons_self h.1 h0

theorem run_keeps_mem (hst : ∀ s, ∀ e ∈ es, I s → I (step s e)) (h0 : I s) : I (run step s es) :=
  List.foldlRecOn es step h0 fun s hs e he => hst s e he hs

theorem run_invariant (hst : ∀ s e, I s → I (step s e)) (h0 : I s) (es : List ε) : I (run step s es) :=
  run_keeps_mem (fun s e _ => hst s e) h0

inductive Follows (R : σ → ε → σ → Prop) : σ → List ε → σ → Prop
  | nil (s : σ) : Follows R s [] s
  | cons {s s' s'' : σ} {e : ε} {es : List ε} (h : R s e s') (hs : Follows R s' es s'') : Follows R s (e :: es) s''

/-- A function whose steps are steps of a relation, seen through `view`, has
runs that are runs of the relation. -/
theorem follows_of_simulation {τ : Type} {R} {view : σ → τ} (hkeep : ∀ s e, I s → I (step s e))
    (hsim : ∀ s e, I s → R (view s) e (view (step s e))) (h0 : I s) (es : List ε) :
    Follows R (view s) es (view (run step s es)) := by
  induction es generalizing s with
  | nil => exact .nil _
  | cons e es ih => exact .cons (hsim s e h0) (ih (hkeep s e h0))

/-- From `a` on, `n` entries of a log have the property, and the others are passed over. -/
inductive Streak {α : Type} (P Q : α → Prop) : List α → Nat → α → Prop
  | start {l : List α} {a : α} (h : P a) : Streak P Q (l ++ [a]) 1 a
  | extend {l : List α} {n : Nat} {a b : α} (hl : Streak P Q l n a) (h : P b) : Streak P Q (l ++ [b]) (n + 1) a
  | pass {l : List α} {n : Nat} {a b : α} (hl : Streak P Q l n a) (h : Q b) : Streak P Q (l ++ [b]) n a

theorem Streak.split {α : Type} {P Q} {l : List α} {n : Nat} {a : α} (h : Streak P Q l n a) :
    ∃ earlier rest, l = earlier ++ a :: rest ∧ (∀ b ∈ a :: rest, P b ∨ Q b) ∧
      ∃ kept : List α, kept.Sublist (a :: rest) ∧ kept.length = n ∧ ∀ b ∈ kept, P b := by
  induction h with
  | @start l a ha => exact ⟨l, [], rfl, by simp [ha], [a], .refl _, rfl, by simpa using ha⟩
  | @extend l n a b _ hb ih =>
    obtain ⟨earlier, rest, rfl, hall, kept, hkept, rfl, hP⟩ := ih
    refine ⟨earlier, rest ++ [b], by simp, ?_, kept ++ [b], hkept.append (.refl [b]), by simp, ?_⟩
    · rw [← List.cons_append]
      exact List.forall_mem_append.2 ⟨hall, by simp [hb]⟩
    · exact List.forall_mem_append.2 ⟨hP, by simpa using hb⟩
  | @pass l n a b _ hb ih =>
    obtain ⟨earlier, rest, rfl, hall, kept, hkept, hn, hP⟩ := ih
    refine ⟨earlier, rest ++ [b], by simp, ?_, kept, hkept.trans (List.sublist_append_left _ [b]), hn, hP⟩
    rw [← List.cons_append]
    exact List.forall_mem_append.2 ⟨hall, by simp [hb]⟩

end SingBox.Runs

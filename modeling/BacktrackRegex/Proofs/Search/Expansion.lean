import BacktrackRegex.Proofs.Search.Backtracking
import BacktrackRegex.Proofs.Search.Ending
import Mathlib.Data.List.Forall2

/-!
# Following threads

The threads that a thread turns into can be followed in any portions, since no thread looks at
another one: what a list of threads becomes is put together from what its members become.

* `Program.Expands` — some threads after some of them have been followed for a while;
* `Program.Becomes` — threads become others that answer one by one to given values;
* `threads_rec`, `threads_induction` — what every thread passes on to its successors holds of all
  threads;
* `search_of_expands` — a search decides for the first of the threads that end at `accept`;
* `pos_lt_of_search_matched` — a match ends at an offset.
-/

set_option autoImplicit false

namespace BacktrackRegex

namespace Program

/-- Following some of the threads `ts` for a while leads to `us`; the order is kept. -/
inductive Expands (p : Program) (text : Array Char) : List Thread → List Thread → Prop
  | nil : p.Expands text [] []
  /-- The first thread stays as it is. -/
  | keep {t : Thread} {ts us : List Thread} (h : p.Expands text ts us) :
    p.Expands text (t :: ts) (t :: us)
  /-- The first thread gives way to its successors. -/
  | follow {t : Thread} {ts ts' us : List Thread} (hAccept : ¬ p.Accepts t)
    (hNext : p.successors text t = .ok ts') (h : p.Expands text (ts' ++ ts) us) :
    p.Expands text (t :: ts) us

/-- The threads `ts` become threads that stand in the relation `R` to the values `as`, one to one
and in this order. -/
def Becomes {α : Type} (p : Program) (text : Array Char) (R : α → Thread → Prop) (as : List α)
    (ts : List Thread) : Prop :=
  ∃ us, p.Expands text ts us ∧ List.Forall₂ R as us

variable {p : Program} {text : Array Char}

namespace Expands

theorem refl (ts : List Thread) : p.Expands text ts ts := by
  induction ts with
  | nil => exact .nil
  | cons t ts ih => exact .keep ih

theorem append {ts us ts' us' : List Thread} (h : p.Expands text ts us)
    (h' : p.Expands text ts' us') : p.Expands text (ts ++ ts') (us ++ us') := by
  induction h with
  | nil => exact h'
  | keep _ ih => exact .keep ih
  | follow hAccept hNext _ ih =>
    rw [List.append_assoc] at ih
    exact .follow hAccept hNext ih

theorem split {ts ts' vs : List Thread} (h : p.Expands text (ts ++ ts') vs) :
    ∃ us us', vs = us ++ us' ∧ p.Expands text ts us ∧ p.Expands text ts' us' := by
  generalize hAll : ts ++ ts' = all at h
  induction h generalizing ts with
  | nil =>
    obtain ⟨rfl, rfl⟩ := List.append_eq_nil_iff.1 hAll
    exact ⟨[], [], rfl, .nil, .nil⟩
  | @keep t rest us h ih =>
    cases ts with
    | nil =>
      subst hAll
      exact ⟨[], t :: us, rfl, .nil, .keep h⟩
    | cons t' ts =>
      obtain ⟨rfl, hRest⟩ := List.cons_eq_cons.1 hAll
      obtain ⟨us₁, us₂, rfl, h₁, h₂⟩ := ih hRest
      exact ⟨t' :: us₁, us₂, rfl, .keep h₁, h₂⟩
  | @follow t rest next us hAccept hNext h ih =>
    cases ts with
    | nil =>
      subst hAll
      exact ⟨[], us, rfl, .nil, .follow hAccept hNext h⟩
    | cons t' ts =>
      obtain ⟨rfl, hRest⟩ := List.cons_eq_cons.1 hAll
      have hNextAll : (next ++ ts) ++ ts' = next ++ rest := by
        rw [List.append_assoc]
        exact congrArg (next ++ ·) hRest
      obtain ⟨us₁, us₂, rfl, h₁, h₂⟩ := ih hNextAll
      exact ⟨us₁, us₂, rfl, .follow hAccept hNext h₁, h₂⟩

theorem trans {ts us vs : List Thread} (h : p.Expands text ts us) (h' : p.Expands text us vs) :
    p.Expands text ts vs := by
  induction h generalizing vs with
  | nil => exact h'
  | keep _ ih =>
    cases h' with
    | keep h' => exact .keep (ih h')
    | follow hAccept hNext h' =>
      obtain ⟨vs₁, vs₂, rfl, h₁, h₂⟩ := h'.split
      exact .follow hAccept hNext (h₁.append (ih h₂))
  | follow hAccept hNext _ ih => exact .follow hAccept hNext (ih h')

end Expands

namespace Becomes

variable {α β : Type} {R S : α → Thread → Prop} {R' : β → Thread → Prop} {as bs : List α}
  {ts us : List Thread}

theorem nil : p.Becomes text R [] [] := ⟨[], .nil, .nil⟩

theorem here {a : α} {t : Thread} (h : R a t) : p.Becomes text R [a] [t] :=
  ⟨[t], .refl [t], .cons h .nil⟩

theorem append (h : p.Becomes text R as ts) (h' : p.Becomes text R bs us) :
    p.Becomes text R (as ++ bs) (ts ++ us) := by
  obtain ⟨ts', hTs, hAs⟩ := h
  obtain ⟨us', hUs, hBs⟩ := h'
  exact ⟨ts' ++ us', hTs.append hUs, List.rel_append hAs hBs⟩

theorem follow {t : Thread} (hAccept : ¬ p.Accepts t) (hNext : p.successors text t = .ok ts)
    (h : p.Becomes text R as ts) : p.Becomes text R as [t] := by
  obtain ⟨us, hUs, hAs⟩ := h
  exact ⟨us, .follow hAccept hNext (by rwa [List.append_nil]), hAs⟩

/-- Every thread that has come about may be followed further. -/
theorem bind {f : α → List β} (h : p.Becomes text R as ts)
    (hNext : ∀ a ∈ as, ∀ t, R a t → p.Becomes text R' (f a) [t]) :
    p.Becomes text R' (as.flatMap f) ts := by
  obtain ⟨us, hUs, hAs⟩ := h
  have hRest : p.Becomes text R' (as.flatMap f) us := by
    clear hUs
    induction hAs with
    | nil => exact nil
    | @cons a t as us hR _ ih =>
      rw [List.flatMap_cons]
      exact (hNext a List.mem_cons_self t hR).append
        (ih fun b hb => hNext b (List.mem_cons_of_mem a hb))
  obtain ⟨vs, hVs, hBs⟩ := hRest
  exact ⟨vs, hUs.trans hVs, hBs⟩

/-- The threads as answers to other values. -/
theorem map {f : α → β} (h : p.Becomes text R as ts)
    (hR : ∀ a ∈ as, ∀ t, R a t → R' (f a) t) : p.Becomes text R' (as.map f) ts := by
  rw [List.map_eq_flatMap]
  exact h.bind fun a ha t hat => here (hR a ha t hat)

/-- The threads as answers in a wider sense. -/
theorem imp (h : p.Becomes text R as ts) (hR : ∀ a ∈ as, ∀ t, R a t → S a t) :
    p.Becomes text S as ts := by
  have hMap := h.map (f := id) hR
  rwa [List.map_id] at hMap

end Becomes

/-! ## What all threads have in common -/

theorem sound_initial (p : Program) : p.Sound (.initial p.slots) := trivial

/-- What holds of the first thread, and with each step of the search passes to the successors of a
thread and stays with the threads that wait, holds of all threads in all states of a search. -/
theorem threads_rec {P : Nat → Thread → Prop} (hInitial : P 0 (.initial p.slots))
    (hNext : ∀ n t ts, P n t → p.successors text t = .ok ts → ∀ u ∈ ts, P (n + 1) u)
    (hWait : ∀ n t, P n t → P (n + 1) t) {n : Nat} {s : State}
    (hState : p.stateAfter text n = some s) : p.Sound s ∧ ∀ t ∈ p.threads s, P n t := by
  refine stateAfter_rec (P := fun n s => p.Sound s ∧ ∀ t ∈ p.threads s, P n t) ?_ ?_ hState
  · refine ⟨sound_initial p, fun t ht => ?_⟩
    rw [List.mem_singleton.1 ht]
    exact hInitial
  · rintro n s s' ⟨hSound, hAll⟩ hRunning
    have hAccept : ¬ p.Accepts s.thread := by
      intro hAccept
      rw [step_accept hAccept] at hRunning
      cases hRunning
    have hStep := step_spec text hSound hAccept
    rw [hRunning] at hStep
    split at hStep
    · rename_i ts hTs
      obtain ⟨hSound', hThreads⟩ := hStep
      refine ⟨hSound', fun u hu => ?_⟩
      rw [hThreads] at hu
      rcases List.mem_append.1 hu with hu | hu
      · exact hNext n s.thread ts (hAll _ List.mem_cons_self) hTs u hu
      · exact hWait n u (hAll u (List.mem_cons_of_mem _ hu))
    · cases hStep

/-- What holds of the first thread, and of the successors of every thread of which it holds, holds
of all threads in all states of a search. -/
theorem threads_induction {P : Thread → Prop} (hInitial : P (.initial p.slots))
    (hNext : ∀ t ts, P t → p.successors text t = .ok ts → ∀ u ∈ ts, P u) {n : Nat} {s : State}
    (hState : p.stateAfter text n = some s) : p.Sound s ∧ ∀ t ∈ p.threads s, P t :=
  threads_rec (P := fun _ => P) hInitial (fun _ => hNext) (fun _ _ h => h) hState

theorem sound_of_stateAfter {n : Nat} {s : State} (hState : p.stateAfter text n = some s) :
    p.Sound s :=
  (threads_induction (P := fun _ => True) trivial (fun _ _ _ _ _ _ => trivial) hState).1

/-- Every instruction takes one character at most, so a search is no further in the text than it
has executed instructions. -/
theorem pos_le_of_stateAfter {n : Nat} {s : State} (hState : p.stateAfter text n = some s) :
    s.pos ≤ n := by
  have hNext : ∀ n t ts, t.pos ≤ n → p.successors text t = .ok ts → ∀ u ∈ ts, u.pos ≤ n + 1 :=
    fun _ _ _ hPos hNext u hu =>
      Nat.le_trans (pos_le_of_successors hNext u hu) (Nat.succ_le_succ hPos)
  have hWait : ∀ n (t : Thread), t.pos ≤ n → t.pos ≤ n + 1 := fun _ _ => Nat.le_succ_of_le
  have hAll := (threads_rec (P := fun n t => t.pos ≤ n) (Nat.le_refl 0) hNext hWait hState).2
  exact hAll s.thread List.mem_cons_self

/-! ## What a search decides -/

/-- The ending is the one that these threads at `accept` call for: a match by the first of them, or
none. -/
inductive Decides : List Thread → Ending → Prop
  | matched {s : State} {ts : List Thread} : Decides (s.thread :: ts) (.matched s)
  | failed {s : State} : Decides [] (.failed s)

theorem Expands.of_accepts {t : Thread} {ts us : List Thread} (h : p.Expands text (t :: ts) us)
    (hAccept : p.Accepts t) : ∃ us', us = t :: us' := by
  cases h with
  | keep _ => exact ⟨_, rfl⟩
  | follow hNot _ _ => exact absurd hAccept hNot

/-- The step of a machine whose first thread has to go on. -/
theorem Expands.step_leadsTo {us : List Thread} {s : State} (hSound : p.Sound s)
    (h : p.Expands text (p.threads s) us) (hAll : ∀ u ∈ us, p.Accepts u)
    (hAccept : ¬ p.Accepts s.thread) :
    ∃ ts, p.LeadsTo ts (p.step text s) ∧ p.Expands text ts us := by
  have hStep := step_spec text hSound hAccept
  cases h with
  | keep _ => exact absurd (hAll _ List.mem_cons_self) hAccept
  | follow _ hNext h =>
    rw [hNext] at hStep
    exact ⟨_, hStep, h⟩

/-- A state of the search that still stands for the threads `us`. -/
structure Awaits (p : Program) (text : Array Char) (us : List Thread) (s : State) : Prop where
  sound : p.Sound s
  expands : p.Expands text (p.threads s) us

theorem Awaits.step {us : List Thread} {s s' : State} (h : p.Awaits text us s)
    (hAll : ∀ u ∈ us, p.Accepts u) (hStep : p.step text s = .running s') :
    p.Awaits text us s' := by
  by_cases hAccept : p.Accepts s.thread
  · rw [step_accept hAccept] at hStep
    cases hStep
  · obtain ⟨ts, hLeads, hExpands⟩ := h.expands.step_leadsTo h.sound hAll hAccept
    rw [hStep] at hLeads
    obtain ⟨hSound, rfl⟩ := hLeads
    exact ⟨hSound, hExpands⟩

/-- If the start of a search becomes threads that are all at `accept`, the search decides for the
first of them, unless a limit or an overflow keeps it from that. -/
theorem search_of_expands {us : List Thread} (h : p.Expands text [.initial p.slots] us)
    (hAll : ∀ u ∈ us, p.Accepts u) (limits : Limits) :
    Decides us (p.search text limits) ∨ (∃ e, p.search text limits = .exhausted e) ∨
      ∃ f, p.Overflows text limits f ∧ p.search text limits = .broken f := by
  obtain ⟨n, s, hState, hClears, hEnds⟩ := search_endsAt p text limits
  have hAwaits : p.Awaits text us s :=
    stateAfter_induction ⟨sound_initial p, h⟩ (fun s s' hs hStep => hs.step hAll hStep) hState
  generalize p.search text limits = ending at hEnds ⊢
  -- Only at `accept`, and with no thread left, can a step end the search.
  have hGoesOn : ¬ p.Accepts s.thread →
      ∃ ts, p.LeadsTo ts (p.step text s) ∧ p.Expands text ts us :=
    hAwaits.expands.step_leadsTo hAwaits.sound hAll
  cases hEnds with
  | stepOverflow hFull => exact .inr (.inr ⟨_, .steps hState hClears hFull, rfl⟩)
  | exhausted _ _ => exact .inr (.inl ⟨_, rfl⟩)
  | counterOverflow _ hFull => exact .inr (.inr ⟨_, .counts hState hClears hFull, rfl⟩)
  | matched _ _ hStep =>
    by_cases hAccept : p.Accepts s.thread
    · rw [step_accept hAccept] at hStep
      cases hStep
      obtain ⟨us', rfl⟩ := hAwaits.expands.of_accepts hAccept
      exact .inl .matched
    · obtain ⟨ts, hLeads, -⟩ := hGoesOn hAccept
      rw [hStep] at hLeads
      exact hLeads.elim
  | failed _ hStep =>
    by_cases hAccept : p.Accepts s.thread
    · rw [step_accept hAccept] at hStep
      cases hStep
    · obtain ⟨ts, hLeads, hExpands⟩ := hGoesOn hAccept
      rw [hStep] at hLeads
      cases hLeads
      cases hExpands
      exact .inl .failed
  | broken _ hStep =>
    by_cases hAccept : p.Accepts s.thread
    · rw [step_accept hAccept] at hStep
      cases hStep
    · obtain ⟨ts, hLeads, -⟩ := hGoesOn hAccept
      rw [hStep] at hLeads
      exact hLeads.elim

/-- A match ends at an offset: the search has counted a step for every character before it. -/
theorem pos_lt_of_search_matched {limits : Limits} {s : State}
    (h : p.search text limits = .matched s) : s.pos < offsetCapacity := by
  obtain ⟨n, s', hState, -, hEnds⟩ := search_endsAt p text limits
  rw [h] at hEnds
  cases hEnds with
  | matched hSteps _ hStep =>
    by_cases hAccept : p.Accepts s'.thread
    · rw [step_accept hAccept] at hStep
      cases hStep
      have hCapacity : stepCapacity = offsetCapacity := rfl
      rw [← hCapacity]
      exact Nat.lt_of_le_of_lt (pos_le_of_stateAfter hState) (Nat.lt_of_succ_lt hSteps)
    · have hLeads := step_spec text (sound_of_stateAfter hState) hAccept
      rw [hStep] at hLeads
      split at hLeads
      · exact hLeads.elim
      · cases hLeads

end Program

end BacktrackRegex

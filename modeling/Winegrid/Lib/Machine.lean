import Mathlib.Data.List.Induction
import Mathlib.Tactic.SplitIfs

/-!
# Labelled machines, their runs and their simulations

A machine has initial states and a partial step: a label names what the
environment does, and the step answers the next state, or nothing when the
label is not enabled.  Two kinds of run are of interest.

* `Reach ok` collects the states of the runs whose every step meets the
  condition `ok`.  An invariant is proved by `Reach.invariant`.
* `Run ok s ls t` also names the labels, so that a law can speak about the
  order of what happened.  `Run.append_inv` cuts a run in two.

`observed` puts a value beside the state that watches the steps, and `guarded`
disables the steps that do not meet a condition.

`Simulation` relates two machines step by step.  `Simulation.reach` carries
a condition on the concrete steps to a condition on the abstract ones, so
that a law of the abstract machine is a law of the concrete one.
-/

namespace Winegrid

universe u v w x

/-- Initial states, and the step that a label makes when it is enabled. -/
structure Machine (σ : Type u) (ℓ : Type v) where
  init : σ → Prop
  next : σ → ℓ → Option σ

namespace Machine

variable {σ : Type u} {ℓ : Type v} {m : Machine σ ℓ}

/-- The condition that every step meets. -/
def always : σ → ℓ → Prop := fun _ _ => True

/-- The states of the runs whose every step meets `ok`. -/
inductive Reach (m : Machine σ ℓ) (ok : σ → ℓ → Prop) : σ → Prop where
  | init {s : σ} (h : m.init s) : Reach m ok s
  | step {s t : σ} {l : ℓ} (hs : Reach m ok s) (hok : ok s l)
      (hnext : m.next s l = some t) : Reach m ok t

/-- The states of all runs. -/
abbrev Reachable (m : Machine σ ℓ) : σ → Prop := m.Reach always

/-- What holds initially and what every step keeps holds in every state of
every run.  The step may use that its first state is reached. -/
theorem Reach.invariant {ok : σ → ℓ → Prop} {I : σ → Prop} {s : σ}
    (h : m.Reach ok s) (hinit : ∀ s, m.init s → I s)
    (hstep : ∀ s l t, m.Reach ok s → I s → ok s l → m.next s l = some t → I t) : I s := by
  induction h with
  | init h => exact hinit _ h
  | step hs hok hnext ih => exact hstep _ _ _ hs ih hok hnext

/-! ## Executing a list of labels -/

/-- Follow the labels, as long as each one is enabled. -/
def exec (m : Machine σ ℓ) : σ → List ℓ → Option σ
  | s, [] => some s
  | s, l :: ls => (m.next s l).bind fun t => exec m t ls

/-- A step or an execution whose end was tested. -/
theorem exists_of_any {o : Option σ} {p : σ → Prop} [DecidablePred p]
    (h : o.any (fun s => decide (p s)) = true) : ∃ s, o = some s ∧ p s := by
  obtain ⟨s, hs, hp⟩ := (Option.any_eq_true _ _).mp h
  exact ⟨s, hs, of_decide_eq_true hp⟩

theorem exec_cons {s t : σ} {l : ℓ} (h : m.next s l = some t) (ls : List ℓ) :
    m.exec s (l :: ls) = m.exec t ls := by
  simp only [exec, h, Option.bind_some]

/-- More labels go on from where an execution ended. -/
theorem exec_append {s t : σ} {ls : List ℓ} (h : m.exec s ls = some t) (ls' : List ℓ) :
    m.exec s (ls ++ ls') = m.exec t ls' := by
  induction ls generalizing s with
  | nil =>
    simp only [exec, Option.some.injEq] at h
    rw [h, List.nil_append]
  | cons l ls ih =>
    simp only [exec, Option.bind_eq_some_iff] at h
    obtain ⟨r, hr, hrest⟩ := h
    rw [List.cons_append, exec_cons hr, ih hrest]

/-- What an execution ends in is reached, when its labels meet the condition
whatever the state. -/
theorem Reach.exec {ok : σ → ℓ → Prop} {s t : σ} {ls : List ℓ} (hs : m.Reach ok s)
    (hls : ∀ l ∈ ls, ∀ s, ok s l) (h : m.exec s ls = some t) : m.Reach ok t := by
  induction ls generalizing s with
  | nil =>
    simp only [Machine.exec, Option.some.injEq] at h
    exact h ▸ hs
  | cons l ls ih =>
    simp only [Machine.exec, Option.bind_eq_some_iff] at h
    obtain ⟨r, hr, hrest⟩ := h
    exact ih (.step hs (hls l List.mem_cons_self s) hr)
      (fun l hl => hls l (List.mem_cons_of_mem _ hl)) hrest

theorem Reachable.exec {s t : σ} {ls : List ℓ} (hs : m.Reachable s)
    (h : m.exec s ls = some t) : m.Reachable t :=
  Reach.exec hs (fun _ _ _ => trivial) h

/-! ## Runs with their labels -/

/-- `Run m ok s ls t`: from `s` the labels `ls` lead to `t`, and every step
meets `ok`. -/
inductive Run (m : Machine σ ℓ) (ok : σ → ℓ → Prop) : σ → List ℓ → σ → Prop where
  | nil (s : σ) : Run m ok s [] s
  | snoc {s t r : σ} {ls : List ℓ} {l : ℓ} (h : Run m ok s ls t) (hok : ok t l)
      (hnext : m.next t l = some r) : Run m ok s (ls ++ [l]) r

theorem Run.trans {ok : σ → ℓ → Prop} {s t r : σ} {ls ls' : List ℓ}
    (h : m.Run ok s ls t) (h' : m.Run ok t ls' r) : m.Run ok s (ls ++ ls') r := by
  induction h' with
  | nil => simpa using h
  | snoc _ hok hnext ih =>
    rw [← List.append_assoc]
    exact .snoc ih hok hnext

/-- The last step of a run. -/
theorem Run.snoc_inv {ok : σ → ℓ → Prop} {s r : σ} {ls : List ℓ} {l : ℓ}
    (h : m.Run ok s (ls ++ [l]) r) : ∃ t, m.Run ok s ls t ∧ ok t l ∧ m.next t l = some r := by
  generalize hall : ls ++ [l] = all at h
  cases h with
  | nil => simp at hall
  | snoc h hok hnext =>
    obtain ⟨rfl, hl⟩ := List.append_inj' hall rfl
    cases hl
    exact ⟨_, h, hok, hnext⟩

/-- A run over two lists of labels passes through a state between them. -/
theorem Run.append_inv {ok : σ → ℓ → Prop} {s r : σ} {ls ls' : List ℓ}
    (h : m.Run ok s (ls ++ ls') r) : ∃ t, m.Run ok s ls t ∧ m.Run ok t ls' r := by
  induction ls' using List.reverseRecOn generalizing r with
  | nil => exact ⟨r, by simpa using h, .nil r⟩
  | append_singleton ls' l ih =>
    rw [← List.append_assoc] at h
    obtain ⟨u, hu, hok, hnext⟩ := h.snoc_inv
    obtain ⟨t, ht, hrest⟩ := ih hu
    exact ⟨t, ht, .snoc hrest hok hnext⟩

/-- One step is a run. -/
theorem Run.single {ok : σ → ℓ → Prop} {s t : σ} {l : ℓ} (hok : ok s l)
    (hnext : m.next s l = some t) : m.Run ok s [l] t :=
  .snoc (.nil s) hok hnext

/-- An execution is a run. -/
theorem Run.exec {s t : σ} {ls : List ℓ} (h : m.exec s ls = some t) : m.Run always s ls t := by
  induction ls generalizing s with
  | nil =>
    simp only [Machine.exec, Option.some.injEq] at h
    exact h ▸ .nil s
  | cons l ls ih =>
    simp only [Machine.exec, Option.bind_eq_some_iff] at h
    obtain ⟨r, hr, hrest⟩ := h
    exact (Run.single trivial hr).trans (ih hrest)

/-- A run meets every condition that its own condition implies for its
labels. -/
theorem Run.imp {ok ok' : σ → ℓ → Prop} {s t : σ} {ls : List ℓ} (h : m.Run ok s ls t)
    (himp : ∀ s l, l ∈ ls → ok s l → ok' s l) : m.Run ok' s ls t := by
  induction h with
  | nil => exact .nil _
  | @snoc u r ls l _ hok hnext ih =>
    have hmem : l ∈ ls ++ [l] := List.mem_append_right _ (List.mem_singleton_self l)
    exact .snoc (ih fun s k hk => himp s k (List.mem_append_left _ hk)) (himp u l hmem hok) hnext

/-- What every step keeps, a run keeps. -/
theorem Run.invariant {ok : σ → ℓ → Prop} {I : List ℓ → σ → Prop} {s t : σ}
    {ls : List ℓ} (hinit : I [] s)
    (hstep : ∀ ls s l t, I ls s → ok s l → m.next s l = some t → I (ls ++ [l]) t)
    (h : m.Run ok s ls t) : I ls t := by
  induction h with
  | nil => exact hinit
  | snoc _ hok hnext ih => exact hstep _ _ _ _ ih hok hnext

/-- The labels decide where a run ends. -/
theorem Run.end_unique {ok ok' : σ → ℓ → Prop} {s t u : σ} {ls : List ℓ}
    (h : m.Run ok s ls t) (h' : m.Run ok' s ls u) : t = u := by
  induction h generalizing u with
  | nil =>
    generalize hls : [] = ls at h'
    cases h' with
    | nil => rfl
    | snoc => simp at hls
  | snoc _ _ hnext ih =>
    obtain ⟨r, hr, -, hnext'⟩ := h'.snoc_inv
    obtain rfl := ih hr
    exact Option.some.inj (hnext.symm.trans hnext')

/-- Where a step meets `ok` exactly when it keeps `I`, all states of a run are
in `I` if and only if all its steps meet `ok`. -/
theorem Run.states_iff {ok : σ → ℓ → Prop} {I : σ → Prop} {s t : σ} {ls : List ℓ} (hinit : I s)
    (hstep : ∀ s l t, I s → m.next s l = some t → (ok s l ↔ I t)) (h : m.Run always s ls t) :
    (m.Run (fun s _ => I s) s ls t ∧ I t) ↔ m.Run ok s ls t := by
  induction h with
  | nil => exact ⟨fun _ => .nil _, fun _ => ⟨.nil _, hinit⟩⟩
  | @snoc t r ls l h _ hnext ih =>
    constructor
    · intro ⟨hstates, hr⟩
      obtain ⟨u, hu, hI, -⟩ := hstates.snoc_inv
      obtain rfl := h.end_unique hu
      exact .snoc (ih.mp ⟨hu, hI⟩) ((hstep _ _ _ hI hnext).mpr hr) hnext
    · intro hsteps
      obtain ⟨u, hu, hok, -⟩ := hsteps.snoc_inv
      obtain rfl := h.end_unique hu
      obtain ⟨hstates, hI⟩ := ih.mpr hu
      exact ⟨.snoc hstates hI hnext, (hstep _ _ _ hI hnext).mp hok⟩

/-! ## Observed machines -/

/-- The machine beside a value that is updated at every step, and that no step
depends on. -/
def observed {γ : Type w} (m : Machine σ ℓ) (start : γ) (observe : γ → σ → ℓ → γ) :
    Machine (σ × γ) ℓ where
  init s := m.init s.1 ∧ s.2 = start
  next s l := (m.next s.1 l).map fun t => (t, observe s.2 s.1 l)

theorem observed_next {γ : Type w} {start : γ} {observe : γ → σ → ℓ → γ} {s t : σ × γ} {l : ℓ} :
    (m.observed start observe).next s l = some t ↔
      m.next s.1 l = some t.1 ∧ t.2 = observe s.2 s.1 l := by
  simp only [observed, Option.map_eq_some_iff]
  constructor
  · rintro ⟨r, hr, rfl⟩
    exact ⟨hr, rfl⟩
  · rintro ⟨hnext, hobserve⟩
    exact ⟨t.1, hnext, Prod.ext rfl hobserve.symm⟩

/-! ## Guarded machines -/

/-- The machine in which the steps that do not meet a condition are disabled. -/
def guarded (m : Machine σ ℓ) (ok : σ → ℓ → Prop) [∀ s l, Decidable (ok s l)] : Machine σ ℓ where
  init := m.init
  next s l := if ok s l then m.next s l else none

theorem Reach.of_guarded {ok : σ → ℓ → Prop} [∀ s l, Decidable (ok s l)] {s : σ}
    (h : (m.guarded ok).Reachable s) : m.Reach ok s := by
  refine h.invariant (I := fun s => m.Reach ok s) (fun _ hs => .init hs) ?_
  intro s l t _ hs _ hnext
  change (if ok s l then m.next s l else none) = some t at hnext
  split_ifs at hnext with hok
  exact .step hs hok hnext

theorem Run.of_guarded {ok : σ → ℓ → Prop} [∀ s l, Decidable (ok s l)] {s t : σ} {ls : List ℓ}
    (h : (m.guarded ok).Run always s ls t) : m.Run ok s ls t := by
  refine h.invariant (I := fun ls t => m.Run ok s ls t) (.nil s) ?_
  intro ls t l r hrun _ hnext
  change (if ok t l then m.next t l else none) = some r at hnext
  split_ifs at hnext with hok
  exact .snoc hrun hok hnext

/-! ## Simulation -/

variable {τ : Type w} {μ : Type x} {n : Machine τ μ}

/-- Every step of `m` that meets `ok` is matched by a run of `n` whose steps
meet `ok'`, and the relation is kept. -/
structure Simulation (m : Machine σ ℓ) (ok : σ → ℓ → Prop) (n : Machine τ μ)
    (ok' : τ → μ → Prop) where
  R : σ → τ → Prop
  init : ∀ s, m.init s → ∃ a, n.init a ∧ R s a
  step : ∀ s l t a, R s a → ok s l → m.next s l = some t →
    ∃ ls b, n.Run ok' a ls b ∧ R t b

/-- A run keeps a state reached. -/
theorem Run.reach {ok : σ → ℓ → Prop} {s t : σ} {ls : List ℓ}
    (hs : m.Reach ok s) (h : m.Run ok s ls t) : m.Reach ok t := by
  induction h with
  | nil => exact hs
  | snoc _ hok hnext ih => exact .step ih hok hnext

/-- Every reached state of the concrete machine is related to a reached
state of the abstract one. -/
theorem Simulation.reach {ok : σ → ℓ → Prop} {ok' : τ → μ → Prop}
    (sim : Simulation m ok n ok') {s : σ} (h : m.Reach ok s) :
    ∃ a, n.Reach ok' a ∧ sim.R s a := by
  refine h.invariant (I := fun s => ∃ a, n.Reach ok' a ∧ sim.R s a) ?_ ?_
  · intro s hs
    obtain ⟨a, ha, hR⟩ := sim.init s hs
    exact ⟨a, .init ha, hR⟩
  · rintro s l t - ⟨a, ha, hR⟩ hok hnext
    obtain ⟨ls, b, hrun, hR'⟩ := sim.step s l t a hR hok hnext
    exact ⟨b, hrun.reach ha, hR'⟩

end Machine

end Winegrid

import Mathlib.Data.List.Induction

/-!
# Laws of a history

A history is a list of what happened, oldest first.  Many laws say what has
to be in the past of each of its elements: `Lawful law log` says it once, so
that a law over a growing log is proved one element at a time.

* `lawful_concat`: one more element has to obey the law itself, no more.
* `Lawful.append`: the same for several elements at once.
-/

namespace Winegrid

universe u

variable {α : Type u} {law : List α → α → Prop} {log : List α}

/-- Every element of the history obeys `law` with the elements before it. -/
def Lawful (law : List α → α → Prop) (log : List α) : Prop :=
  ∀ before a after, log = before ++ a :: after → law before a

@[simp] theorem lawful_nil : Lawful law [] := by
  intro before a after h
  simp at h

/-- A longer history is lawful if and only if its last element is, too. -/
theorem lawful_concat {a : α} : Lawful law (log ++ [a]) ↔ Lawful law log ∧ law log a := by
  constructor
  · intro h
    refine ⟨fun before b after heq => h before b (after ++ [a]) ?_, h log a [] rfl⟩
    rw [heq, List.append_assoc, List.cons_append]
  · rintro ⟨h, ha⟩ before b after heq
    rcases List.eq_nil_or_concat after with rfl | ⟨after', e, rfl⟩
    · obtain ⟨rfl, hlast⟩ := List.append_inj' heq rfl
      cases hlast
      exact ha
    · have heq' : log ++ [a] = (before ++ b :: after') ++ [e] := by simpa using heq
      exact h before b after' (List.append_inj' heq' rfl).1

/-- A history stays lawful when each of the elements added is. -/
theorem Lawful.append {es : List α} (h : Lawful law log)
    (hes : Lawful (fun before a => law (log ++ before) a) es) : Lawful law (log ++ es) := by
  induction es using List.reverseRecOn with
  | nil => simpa using h
  | append_singleton es e ih =>
    obtain ⟨hold, hnew⟩ := lawful_concat.mp hes
    rw [← List.append_assoc]
    exact lawful_concat.mpr ⟨ih hold, hnew⟩

/-- Elements that the law says nothing about keep a history lawful. -/
theorem Lawful.append_free {es : List α} (h : Lawful law log)
    (hes : ∀ e ∈ es, ∀ past, law past e) : Lawful law (log ++ es) := by
  refine h.append fun before a after heq => hes a ?_ _
  rw [heq]
  exact List.mem_append_right _ List.mem_cons_self

end Winegrid

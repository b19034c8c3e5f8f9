import Mathlib.Data.List.Infix

/-!
# Runs of labelled transition systems

A labelled transition system is a relation `step : S → L → S → Prop`.  A run
performs a list of labels one after the other; `Run step s labels t` says that
this leads from `s` to `t`.  Runs grow at their end, so that an induction over
a run sees the last step, which is what an invariant proof needs.

A condition on the steps of a run (a condition on the label and the state it is
taken in) is a transition system of its own, `restrict step ok`: the runs of
`restrict step ok` are the runs of `step` all of whose steps meet `ok`.
-/

namespace Transition

variable {S L : Type*} {step : S → L → S → Prop}

/-- `Run step s labels t`: performing `labels` in order leads from `s` to `t`. -/
inductive Run (step : S → L → S → Prop) (s : S) : List L → S → Prop
  | nil : Run step s [] s
  | snoc {labels : List L} {label : L} {t u : S} :
      Run step s labels t → step t label u → Run step s (labels ++ [label]) u

/-- The steps of `step` that meet the condition `ok` on state and label. -/
def restrict (step : S → L → S → Prop) (ok : S → L → Prop) (s : S) (label : L) (t : S) : Prop :=
  step s label t ∧ ok s label

/-- Performing a label, if there is one; nothing happens without. -/
def Stutters (step : S → L → S → Prop) (s : S) : Option L → S → Prop
  | some label, t => step s label t
  | none, t => t = s

theorem Stutters.restrict {ok : S → L → Prop} {s t : S} {label : Option L}
    (h : Stutters step s label t) (hok : ∀ seen ∈ label, ok s seen) :
    Stutters (restrict step ok) s label t := by
  cases label with
  | none => exact h
  | some seen => exact ⟨h, hok seen rfl⟩

theorem filterMap_singleton {L' : Type*} (sees : L' → Option L) (label : L') :
    [label].filterMap sees = (sees label).toList := by
  cases hlabel : sees label with
  | none => exact List.filterMap_cons_none hlabel
  | some seen => exact List.filterMap_cons_some hlabel

namespace Run

theorem single {s t : S} {label : L} (h : step s label t) : Run step s [label] t :=
  show Run step s ([] ++ [label]) t from .snoc .nil h

/-- What holds at the start and is kept by every step holds at the end. -/
theorem invariant {P : S → Prop} {s t : S} {labels : List L} (hrun : Run step s labels t)
    (hstart : P s) (hstep : ∀ a label b, P a → step a label b → P b) : P t := by
  induction hrun with
  | nil => exact hstart
  | snoc _ hlast ih => exact hstep _ _ _ ih hlast

/-- One more step, if there is one. -/
theorem snoc_toList {s t u : S} {labels : List L} {label : Option L} (hrun : Run step s labels t)
    (hlast : Stutters step t label u) : Run step s (labels ++ label.toList) u := by
  cases label with
  | none =>
      obtain rfl : u = t := hlast
      rwa [Option.toList_none, List.append_nil]
  | some label => exact hrun.snoc hlast

/-- A run of which another system sees only some labels, under other names. -/
theorem snoc_stutters {L' : Type*} {sees : L' → Option L} {s t u : S} {labels : List L'}
    {label : L'} (hrun : Run step s (labels.filterMap sees) t)
    (hlast : Stutters step t (sees label) u) :
    Run step s ((labels ++ [label]).filterMap sees) u := by
  rw [List.filterMap_append, filterMap_singleton]
  exact hrun.snoc_toList hlast

theorem append {s t u : S} {first second : List L} (hfirst : Run step s first t)
    (hsecond : Run step t second u) : Run step s (first ++ second) u := by
  induction hsecond with
  | nil => simpa using hfirst
  | snoc _ hlast ih =>
      rw [← List.append_assoc]
      exact ih.snoc hlast

/-- A run whose labels meet the condition in every state. -/
theorem restrict_of_forall {ok : S → L → Prop} {s t : S} {labels : List L}
    (hrun : Run step s labels t) (hok : ∀ label ∈ labels, ∀ a, ok a label) :
    Run (restrict step ok) s labels t := by
  induction hrun with
  | nil => exact .nil
  | snoc _ hlast ih =>
      have hlabels := List.forall_mem_append.1 hok
      exact (ih hlabels.1).snoc ⟨hlast, hlabels.2 _ (List.mem_singleton.2 rfl) _⟩

/-- Every run of a system is a run of each system that has all its steps. -/
theorem mono {step' : S → L → S → Prop} {s t : S} {labels : List L}
    (hrun : Run step s labels t) (hle : ∀ a label b, step a label b → step' a label b) :
    Run step' s labels t := by
  induction hrun with
  | nil => exact .nil
  | snoc _ hlast ih => exact ih.snoc (hle _ _ _ hlast)

/-- Steps of one kind that cannot go on for ever lead to where none of them can be taken. -/
theorem exists_stuck {kind : L → Prop} {s : S}
    (h : Acc (fun t s => ∃ label, step s label t ∧ kind label) s) :
    ∃ labels t, Run (restrict step fun _ => kind) s labels t ∧
      ∀ u, ¬ ∃ label, step t label u ∧ kind label := by
  induction h with
  | intro s _ ih =>
      by_cases hstuck : ∀ t, ¬ ∃ label, step s label t ∧ kind label
      · exact ⟨[], s, .nil, hstuck⟩
      · obtain ⟨t, hmoves⟩ := not_forall_not.1 hstuck
        obtain ⟨labels, u, hrun, hlast⟩ := ih t hmoves
        obtain ⟨label, hstep, hkind⟩ := hmoves
        exact ⟨_, u, (Run.single ⟨hstep, hkind⟩).append hrun, hlast⟩

end Run

end Transition

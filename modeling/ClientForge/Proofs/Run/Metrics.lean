import ClientForge.Proofs.Text.Sorted
import ClientForge.Run.Target
import Mathlib.Algebra.BigOperators.Group.List.Lemmas
import Mathlib.Algebra.GroupWithZero.Nat

/-!
# Counters by language

Every event of a target carries the language of the target, so the counters under a language tell of that target
alone as long as no other has the same language.

* **`sumUnder_methods`.** The counters for methods under a language add up to the number of methods in it.
* **`filter_events`.** The events with the language of a target are the events of the target.
* **`counted_of_succeeded`.** What is counted under the language of a target that succeeded.
-/

namespace ClientForge.Run

/-- The language under which an event is counted. -/
def Event.language : Event → String
  | .units language _ | .method language _ | .failure language | .duration language _ => language

theorem Event.mem_labels_iff {e : Event} {l : String} : ("language", l) ∈ e.labels ↔ e.language = l := by
  cases e <;> simp [labels, language, eq_comm]

theorem Event.amount_of_methods {e : Event} (h : e.metric = .methods) : e.amount = 1 := by
  cases e with
  | method => rfl
  | _ => cases h

/-! ### Counters -/

namespace Recorder

variable (r : Recorder)

/-- The events that are counted under a language. -/
def under (l : String) : Recorder := ⟨r.events.filter (·.language == l)⟩

/-- The sum of all counters of a metric that have a label. -/
def sumUnder (metric : Metric) (label : Label) : Nat :=
  ((r.samples.filter fun s => s.metric == metric && s.labels.contains label).map (·.value)).sum

/-- The labels of all counted methods. -/
def methodLabels : List (List Label) := (r.events.filter (·.metric == .methods)).map Event.labels

/-- A counter with the label of a language counts what is counted under the language. -/
theorem count_under {l : String} {labels : List Label} (h : ("language", l) ∈ labels) (metric : Metric) :
    (r.under l).count metric labels = r.count metric labels := by
  unfold count eventsOf under
  rw [List.filter_filter]
  congr 2
  refine List.filter_congr fun e _ => ?_
  have hlanguage : e.labels = labels → e.language = l := fun heq => Event.mem_labels_iff.mp (heq ▸ h)
  by_cases heq : e.labels = labels <;> simp [heq, hlanguage]

theorem count_methods (labels : List Label) : r.count .methods labels = r.methodLabels.count labels := by
  have hamounts : (r.eventsOf .methods labels).map Event.amount = (r.eventsOf .methods labels).map fun _ => 1 := by
    refine List.map_congr_left fun e he => Event.amount_of_methods ?_
    have hmetric := (List.mem_filter.mp he).2
    simp only [Bool.and_eq_true, beq_iff_eq] at hmetric
    exact hmetric.1
  rw [count, ← List.sum_eq_foldl, hamounts, methodLabels, List.count_eq_countP, List.countP_map, List.countP_filter]
  simp [eventsOf, List.countP_eq_length_filter, Bool.and_comm]

/-- The counters for methods with a label, one for each set of labels that was counted. -/
theorem samples_methods (label : Label) :
    (r.samples.filter fun s => s.metric == .methods && s.labels.contains label) =
      ((r.labelsOf .methods).filter (·.contains label)).map fun labels =>
        ⟨.methods, labels, r.methodLabels.count labels⟩ := by
  simp [samples, Metric.all, List.filter_map, Function.comp_def, count_methods]

theorem labelsOf_methods_perm : (r.labelsOf .methods).Perm r.methodLabels.dedup := by
  refine (List.mergeSort_perm _ _).trans ?_
  rw [List.perm_ext_iff_of_nodup (Text.nodup_eraseDups _) (List.nodup_dedup _)]
  intro labels
  rw [List.mem_eraseDups, List.mem_dedup]
  rfl

/-- The counters for methods under a language add up to the number of methods in it. -/
theorem sumUnder_methods (l : String) :
    r.sumUnder .methods ("language", l) = (r.under l).methodLabels.length := by
  have hsum : r.sumUnder .methods ("language", l) = r.methodLabels.countP (·.contains ("language", l)) := by
    have hcounts := (r.labelsOf_methods_perm.filter (·.contains ("language", l))).map (r.methodLabels.count ·)
    rw [sumUnder, samples_methods, List.map_map, ← List.sum_map_count_dedup_filter_eq_countP]
    -- both sides compare labels, but not by the same instance
    convert hcounts.sum_eq <;> rfl
  rw [hsum, methodLabels, List.countP_map, List.countP_filter, methodLabels, under, List.length_map,
    List.filter_filter, ← List.countP_eq_length_filter]
  refine List.countP_congr fun e _ => ?_
  simp [Event.mem_labels_iff, and_comm]

end Recorder

/-! ### Events of targets -/

section Targets

variable {r : TargetRun} {runs : List TargetRun}

theorem TargetRun.language_of_mem_events {e : Event} (h : e ∈ r.events) : e.language = r.result.language := by
  simp only [TargetRun.events, List.mem_append, List.mem_map, List.mem_cons, List.not_mem_nil, or_false] at h
  rcases h with ⟨m, -, rfl⟩ | rfl | rfl
  · rfl
  · rfl
  · split <;> rfl

/-- Either all events of a target are counted under a language or none. -/
theorem TargetRun.filter_events (r : TargetRun) (l : String) :
    r.events.filter (·.language == l) = if r.result.language = l then r.events else [] := by
  split
  · next heq =>
    refine List.filter_eq_self.mpr fun e he => ?_
    rw [language_of_mem_events he, heq, beq_self_eq_true]
  · next hne =>
    refine List.filter_eq_nil_iff.mpr fun e he => ?_
    rwa [language_of_mem_events he, beq_iff_eq]

/-- The events with the language of a target are the events of the target. -/
theorem filter_events (hlanguages : (runs.map (·.result.language)).Nodup) (hr : r ∈ runs) :
    (runs.flatMap (·.events)).filter (·.language == r.result.language) = r.events := by
  induction runs with
  | nil => cases hr
  | cons first runs ih =>
      obtain ⟨hfirst, hrest⟩ := List.nodup_cons.mp hlanguages
      have hother : ∀ k ∈ runs, k.result.language ≠ first.result.language := fun k hk heq =>
        hfirst (List.mem_map.mpr ⟨k, hk, heq⟩)
      rw [List.flatMap_cons, List.filter_append, first.filter_events]
      rcases List.mem_cons.mp hr with rfl | hr
      · have hothers : (runs.flatMap (·.events)).filter (·.language == r.result.language) = [] := by
          rw [List.filter_flatMap, List.flatMap_eq_nil_iff]
          intro k hk
          rw [k.filter_events, if_neg (hother k hk)]
        rw [if_pos rfl, hothers, List.append_nil]
      · rw [if_neg (hother r hr).symm, List.nil_append, ih hrest hr]

/-- What is counted under the language of a target that succeeded. -/
theorem counted_of_succeeded (hlanguages : (runs.map (·.result.language)).Nodup) (hr : r ∈ runs)
    (hok : r.result.failure = none) :
    (⟨runs.flatMap (·.events)⟩ : Recorder).count .units [("language", r.result.language)] = r.result.units ∧
      (⟨runs.flatMap (·.events)⟩ : Recorder).sumUnder .methods ("language", r.result.language) = r.methods.length := by
  have hunder : (⟨runs.flatMap (·.events)⟩ : Recorder).under r.result.language = ⟨r.events⟩ :=
    congrArg Recorder.mk (filter_events hlanguages hr)
  rw [← Recorder.count_under _ (List.mem_singleton_self _), Recorder.sumUnder_methods, hunder]
  constructor
  · simp [Recorder.count, Recorder.eventsOf, TargetRun.events, hok, Event.metric, Event.labels,
      Event.amount, List.filter_map, Function.comp_def]
  · simp [Recorder.methodLabels, TargetRun.events, hok, Event.metric, List.filter_map, Function.comp_def]

end Targets

end ClientForge.Run

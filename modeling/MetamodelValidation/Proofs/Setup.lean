import Mathlib.Data.List.Sort
import MetamodelValidation.Proofs.SuiteRuns

/-! # Setting up a pass

Settings are adjusted step by step, starting from the default ones. Of the steps only
the set of names that were disabled counts, and the last value given to each of the
other two settings. Whether a suite accepts the settings is then decided by a search
for a disabled name that it does not have. In which order the search goes through the
names shows at most in the name that is given as the reason.
-/

namespace MetamodelValidation

namespace NameSet

/-- A set is determined by its members. -/
theorem ext_mem {s t : NameSet} (h : ∀ a, a ∈ s ↔ a ∈ t) : s = t := by
  have names : s.names = t.names := s.ascending.eq_of_mem_iff t.ascending h
  cases s
  cases t
  simpa using names

theorem nodup_names (s : NameSet) : s.names.Nodup :=
  s.ascending.imp String.ne_of_lt

end NameSet

namespace Settings

inductive Adjustment where
  | disable (name : String)
  | deduplicate (on : Bool)
  | elementCap (cap : Nat)
deriving DecidableEq

namespace Adjustment

def deduplicate? : Adjustment → Option Bool
  | deduplicate on => some on
  | _ => none

def elementCap? : Adjustment → Option (Option Nat)
  | elementCap cap => some (some cap)
  | _ => none

/-- The steps are of different kinds, or both disable a check. -/
def Independent : Adjustment → Adjustment → Prop
  | deduplicate _, deduplicate _ => False
  | elementCap _, elementCap _ => False
  | _, _ => True

end Adjustment

def adjust (s : Settings) : Adjustment → Settings
  | .disable name => s.disable name
  | .deduplicate on => s.withDeduplicate on
  | .elementCap cap => s.withElementCap cap

def adjustAll (s : Settings) (steps : List Adjustment) : Settings :=
  steps.foldl adjust s

section Adjust

variable (s : Settings)

theorem mem_disabled_adjust (a : Adjustment) {name : String} :
    name ∈ (s.adjust a).disabled ↔ a = .disable name ∨ name ∈ s.disabled := by
  cases a with
  | disable other =>
    change name ∈ s.disabled.insert other ↔ _
    rw [NameSet.mem_insert, Adjustment.disable.injEq, eq_comm]
  | deduplicate on => simp [adjust, withDeduplicate]
  | elementCap cap => simp [adjust, withElementCap]

theorem deduplicate_adjust (a : Adjustment) :
    (s.adjust a).deduplicate = a.deduplicate?.getD s.deduplicate := by
  cases a <;> rfl

theorem elementCap_adjust (a : Adjustment) :
    (s.adjust a).elementCap = a.elementCap?.getD s.elementCap := by
  cases a <;> rfl

theorem disable_comm (name other : String) :
    (s.disable name).disable other = (s.disable other).disable name := by
  have same : (s.disabled.insert name).insert other = (s.disabled.insert other).insert name := by
    apply NameSet.ext_mem
    intro a
    simp only [NameSet.mem_insert, or_left_comm]
  simp [disable, same]

theorem adjust_comm {a b : Adjustment} (h : a.Independent b) :
    (s.adjust a).adjust b = (s.adjust b).adjust a := by
  cases a <;> cases b
  case disable.disable name other => exact s.disable_comm name other
  case deduplicate.deduplicate => exact h.elim
  case elementCap.elementCap => exact h.elim
  all_goals rfl

theorem adjustAll_swap {a b : Adjustment} (h : a.Independent b) (front back : List Adjustment) :
    s.adjustAll (front ++ a :: b :: back) = s.adjustAll (front ++ b :: a :: back) := by
  simp only [adjustAll, List.foldl_append, List.foldl_cons, adjust_comm _ h]

theorem mem_disabled_adjustAll (steps : List Adjustment) {name : String} :
    name ∈ (s.adjustAll steps).disabled ↔ .disable name ∈ steps ∨ name ∈ s.disabled := by
  induction steps generalizing s with
  | nil => simp [adjustAll]
  | cons a steps ih =>
    change name ∈ ((s.adjust a).adjustAll steps).disabled ↔ _
    rw [ih, mem_disabled_adjust, List.mem_cons, eq_comm, or_assoc, or_left_comm]

/-- If each step overwrites a setting or leaves it, the last step that overwrites it
counts. -/
theorem adjustAll_last {α : Type} {setting : Settings → α} {given? : Adjustment → Option α}
    (step : ∀ (s : Settings) a, setting (s.adjust a) = (given? a).getD (setting s))
    (steps : List Adjustment) :
    setting (s.adjustAll steps) = (steps.filterMap given?).getLast?.getD (setting s) := by
  induction steps generalizing s with
  | nil => rfl
  | cons a steps ih =>
    change setting ((s.adjust a).adjustAll steps) = _
    rw [ih, step]
    cases given : given? a with
    | none => simp [given]
    | some x => simp [given, List.getLast?_cons]

end Adjust

end Settings

namespace Pass

section Prepare

variable {suite : Suite} {settings : Settings} {order : List String}

theorem known_of_find?_eq_none (perm : order.Perm settings.disabled.names)
    (h : order.find? (· ∉ suite.names) = none) :
    ∀ name ∈ settings.disabled, name ∈ suite.names := by
  intro name hname
  simpa using List.find?_eq_none.mp h name (perm.mem_iff.mpr hname)

/-- Joins a suite and settings, and looks at the disabled names in the given order. -/
def prepareIn (suite : Suite) (settings : Settings) (order : List String)
    (perm : order.Perm settings.disabled.names) : Except SetupError Pass :=
  match h : order.find? (· ∉ suite.names) with
  | some name => .error (.unknownCheck name)
  | none => .ok ⟨suite, settings, known_of_find?_eq_none perm h⟩

variable (perm : order.Perm settings.disabled.names)

theorem prepareIn_eq_ok (known : ∀ name ∈ settings.disabled, name ∈ suite.names) :
    prepareIn suite settings order perm = .ok ⟨suite, settings, known⟩ := by
  unfold prepareIn
  split
  · rename_i name found
    have unknown : name ∉ suite.names := by simpa using List.find?_some found
    exact absurd (known name (perm.mem_iff.mp (List.mem_of_find?_eq_some found))) unknown
  · rfl

theorem eq_of_prepareIn_eq_ok {p : Pass} (h : prepareIn suite settings order perm = .ok p) :
    p.suite = suite ∧ p.settings = settings := by
  unfold prepareIn at h
  split at h
  · cases h
  · cases h
    exact ⟨rfl, rfl⟩

theorem prepareIn_of_find?_eq_some {name : String}
    (h : order.find? (· ∉ suite.names) = some name) :
    prepareIn suite settings order perm = .error (.unknownCheck name) := by
  unfold prepareIn
  split
  · rename_i found
    cases h.symm.trans found
    rfl
  · rename_i missing
    cases h.symm.trans missing

theorem exists_prepareIn_eq_error {name : String} (disabled : name ∈ settings.disabled)
    (unknown : name ∉ suite.names) :
    ∃ reason, prepareIn suite settings order perm = .error (.unknownCheck reason) ∧
      reason ∈ settings.disabled ∧ reason ∉ suite.names := by
  cases found : order.find? (· ∉ suite.names) with
  | none => exact absurd (known_of_find?_eq_none perm found name disabled) unknown
  | some reason =>
    refine ⟨reason, prepareIn_of_find?_eq_some perm found, ?_, ?_⟩
    · exact perm.mem_iff.mp (List.mem_of_find?_eq_some found)
    · simpa using List.find?_some found

/-- A pass is prepared with the names in ascending order. -/
theorem prepare_eq_prepareIn (suite : Suite) (settings : Settings) :
    prepare suite settings = prepareIn suite settings settings.disabled.names (.refl _) := by
  unfold prepare
  split
  · rename_i allKnown
    rw [prepareIn_eq_ok _ (known_of_unknown_eq_nil allKnown)]
  · rename_i name others unknown
    have found : settings.disabled.names.find? (· ∉ suite.names) = some name := by
      rw [← List.head?_filter]
      exact congrArg List.head? unknown
    rw [prepareIn_of_find?_eq_some _ found]

theorem eq_of_prepare_eq_ok {p : Pass} (h : prepare suite settings = .ok p) :
    p.suite = suite ∧ p.settings = settings := by
  rw [prepare_eq_prepareIn] at h
  exact eq_of_prepareIn_eq_ok _ h

end Prepare

end Pass

/-- Settings are the sum of their steps, and a suite accepts them if it has all checks that
they disable. Otherwise a disabled check that it does not have is named, and which one can
depend on the order of the search only if there are several. -/
theorem Settings.steps_decide_setup (steps : List Adjustment) :
    let s := ({} : Settings).adjustAll steps
    (∀ name, s.isEnabled name = true ↔ .disable name ∉ steps) ∧
    (∀ name, s.disabled.names.count name = if .disable name ∈ steps then 1 else 0) ∧
    s.deduplicate = (steps.filterMap Adjustment.deduplicate?).getLast?.getD true ∧
    s.elementCap = (steps.filterMap Adjustment.elementCap?).getLast?.getD none ∧
    (∀ (front back : List Adjustment) (a b : Adjustment), a.Independent b →
      ({} : Settings).adjustAll (front ++ a :: b :: back) =
        ({} : Settings).adjustAll (front ++ b :: a :: back)) ∧
    ∀ suite : Suite,
      Pass.prepare suite s = Pass.prepareIn suite s s.disabled.names (.refl _) ∧
      ∀ (order : List String) (perm : order.Perm s.disabled.names),
        ((∃ p, Pass.prepareIn suite s order perm = .ok p) ↔
          ∀ name ∈ s.disabled, name ∈ suite.names) ∧
        (∀ p, Pass.prepareIn suite s order perm = .ok p → p.suite = suite ∧ p.settings = s) ∧
        ∀ name ∈ s.disabled, name ∉ suite.names →
          ∃ reason, Pass.prepareIn suite s order perm = .error (.unknownCheck reason) ∧
            reason ∈ s.disabled ∧ reason ∉ suite.names ∧
            ((∀ other ∈ s.disabled, other ∉ suite.names → other = name) → reason = name) := by
  intro s
  have disabled_iff (name : String) : name ∈ s.disabled ↔ .disable name ∈ steps := by
    simp [s, mem_disabled_adjustAll]
  refine ⟨fun name => ?_, fun name => ?_, adjustAll_last {} deduplicate_adjust steps,
    adjustAll_last {} elementCap_adjust steps,
    fun front back a b h => adjustAll_swap {} h front back,
    fun suite => ⟨Pass.prepare_eq_prepareIn suite s, fun order perm => ⟨⟨?_, ?_⟩, ?_, ?_⟩⟩⟩
  · rw [isEnabled_iff, disabled_iff]
  · simp only [s.disabled.nodup_names.count, ← NameSet.mem_def, disabled_iff]
  · rintro ⟨p, prepared⟩
    obtain ⟨hsuite, hsettings⟩ := Pass.eq_of_prepareIn_eq_ok perm prepared
    have known := p.known
    rwa [hsuite, hsettings] at known
  · intro known
    exact ⟨_, Pass.prepareIn_eq_ok perm known⟩
  · intro p prepared
    exact Pass.eq_of_prepareIn_eq_ok perm prepared
  · intro name disabled unknown
    rcases Pass.exists_prepareIn_eq_error perm disabled unknown with
      ⟨reason, refused, disabled', unknown'⟩
    exact ⟨reason, refused, disabled', unknown', fun only => only reason disabled' unknown'⟩

def Settings.restless : List Adjustment :=
  [.disable "b", .elementCap 3, .disable "a", .deduplicate false, .disable "b", .elementCap 5,
    .disable "duplicate-attribute"]

theorem Settings.perm_disabled_restless :
    ["b", "a", "duplicate-attribute"].Perm
      (({} : Settings).adjustAll restless).disabled.names := by
  decide

/-- The search finds `b` where it meets it first, and `a` in ascending order. -/
theorem Settings.steps_decide_setup_of_restless :
    (({} : Settings).adjustAll restless).elementCap = some 5 ∧
    "a" ∈ (({} : Settings).adjustAll restless).disabled.names ∧ "a" ∉ Suite.builtin.names ∧
    (∃ reason, reason ∉ Suite.builtin.names ∧
      Pass.prepareIn .builtin (({} : Settings).adjustAll restless)
        ["b", "a", "duplicate-attribute"] perm_disabled_restless =
          .error (.unknownCheck reason) ∧ reason = "b") ∧
    ∃ reason, reason ∉ Suite.builtin.names ∧
      Pass.prepare .builtin (({} : Settings).adjustAll restless) =
        .error (.unknownCheck reason) ∧ reason = "a" := by
  rcases steps_decide_setup restless with ⟨-, -, -, cap, -, setup⟩
  rcases setup .builtin with ⟨ascending, search⟩
  have disabled : "a" ∈ (({} : Settings).adjustAll restless).disabled.names := by decide
  have unknown : "a" ∉ Suite.builtin.names := by decide
  refine ⟨cap, disabled, unknown, ?_, ?_⟩
  · rcases (search _ perm_disabled_restless).2.2 "a" disabled unknown with
      ⟨reason, refused, -, unknown', -⟩
    refine ⟨reason, unknown', refused, ?_⟩
    cases refused
    rfl
  · rcases (search _ (.refl _)).2.2 "a" disabled unknown with ⟨reason, refused, -, unknown', -⟩
    rw [← ascending] at refused
    refine ⟨reason, unknown', refused, ?_⟩
    cases refused
    rfl

end MetamodelValidation

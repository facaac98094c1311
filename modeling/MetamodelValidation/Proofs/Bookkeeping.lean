import Mathlib.Algebra.GroupWithZero.Nat
import Mathlib.Data.List.DropRight
import MetamodelValidation.Report

/-! # The books of a report

A report is filled and emptied many times. At each time it holds what was added since it
was last emptied, and as long as it is emptied only by taking everything, all that was
ever added is in what was handed out or still in the report. The entries can be looked at
file by file: each is in the share of one file, so numbers found in the shares add up.
-/

namespace MetamodelValidation.Report

inductive Operation where
  | add (d : Diagnostic)
  | take
  | takeDistinct
  | clear

def Operation.added? : Operation → Option Diagnostic
  | add d => some d
  | _ => none

/-- A report in use, together with the lists that were handed out of it so far. -/
structure Account where
  handedOut : List (List Diagnostic) := []
  report : Report := {}

namespace Account

def perform (a : Account) : Operation → Account
  | .add d => { a with report := a.report.add d }
  | .take => ⟨a.handedOut ++ [a.report.take.1], a.report.take.2⟩
  | .takeDistinct => ⟨a.handedOut ++ [a.report.takeDistinct.1], a.report.takeDistinct.2⟩
  | .clear => { a with report := a.report.clear }

def after (ops : List Operation) : Account := ops.foldl perform {}

/-- All that was handed out, followed by what is still there. -/
def total (a : Account) : List Diagnostic := a.handedOut.flatten ++ a.report.entries

theorem after_append_singleton (ops : List Operation) (op : Operation) :
    after (ops ++ [op]) = (after ops).perform op := by
  simp [after]

/-- Every operation but an addition empties the report. -/
theorem entries_perform_of_added?_eq_none (a : Account) {op : Operation} (h : op.added? = none) :
    (a.perform op).report.entries = [] := by
  cases op with
  | add d => cases h
  | take => rfl
  | takeDistinct => rfl
  | clear => rfl

theorem entries_after (ops : List Operation) :
    (after ops).report.entries =
      (ops.rtakeWhile (·.added?.isSome)).filterMap Operation.added? := by
  induction ops using List.reverseRecOn with
  | nil => rfl
  | append_singleton ops op ih =>
    rw [after_append_singleton]
    cases h : op.added? with
    | none =>
      rw [entries_perform_of_added?_eq_none _ h, List.rtakeWhile_concat_neg _ _ _ (by simp [h])]
      rfl
    | some d =>
      cases op with
      | add e =>
        rw [List.rtakeWhile_concat_pos _ _ _ rfl, List.filterMap_append, ← ih]
        rfl
      | _ => cases h

/-- What is taken goes from one side of the account to the other. -/
theorem total_perform (a : Account) {op : Operation} (h : op = .take ∨ ∃ d, op = .add d) :
    (a.perform op).total = a.total ++ op.added?.toList := by
  rcases h with rfl | ⟨d, rfl⟩
  · simp [perform, total, Operation.added?]
  · simp [perform, total, Operation.added?]

theorem total_after {ops : List Operation} (h : ∀ op ∈ ops, op = .take ∨ ∃ d, op = .add d) :
    (after ops).total = ops.filterMap Operation.added? := by
  induction ops using List.reverseRecOn with
  | nil => rfl
  | append_singleton ops op ih =>
    rw [List.forall_mem_append, List.forall_mem_singleton] at h
    rw [after_append_singleton, total_perform _ h.2, ih h.1, List.filterMap_append]
    cases op <;> rfl

end Account

section Shares

variable {r : Report} {files : List SourceFile}

/-- The share of a file is the largest part of the entries that is about this file alone. -/
theorem sublist_forFile_iff {f : SourceFile} {part : List Diagnostic} :
    part.Sublist (r.forFile f) ↔ part.Sublist r.entries ∧ ∀ d ∈ part, d.file = f := by
  constructor
  · intro h
    refine ⟨h.trans List.filter_sublist, fun d hd => ?_⟩
    simpa using (List.mem_filter.mp (h.subset hd)).2
  · rintro ⟨h, about⟩
    have whole : part.filter (·.file == f) = part :=
      List.filter_eq_self.mpr fun d hd => by simpa using about d hd
    rw [← whole]
    exact h.filter _

/-- Each file takes its share, and the others find theirs in what is left. -/
theorem perm_flatMap_forFile (nodup : files.Nodup) (covered : ∀ d ∈ r.entries, d.file ∈ files) :
    (files.flatMap r.forFile).Perm r.entries := by
  induction files generalizing r with
  | nil =>
    have empty : r.entries = [] :=
      List.eq_nil_iff_forall_not_mem.mpr fun d hd => List.not_mem_nil (covered d hd)
    rw [empty]
    rfl
  | cons f files ih =>
    obtain ⟨new, nodup⟩ := List.nodup_cons.mp nodup
    let rest : Report := ⟨r.entries.filter (!·.file == f)⟩
    have others : files.flatMap r.forFile = files.flatMap rest.forFile := by
      apply List.flatMap_congr
      intro g hg
      change r.entries.filter _ = (r.entries.filter _).filter _
      rw [List.filter_filter]
      apply List.filter_congr
      intro d _
      have differs : g ≠ f := fun same => new (same ▸ hg)
      by_cases about : d.file = g
      · simp [about, differs]
      · simp [about]
    have left : ∀ d ∈ rest.entries, d.file ∈ files := by
      intro d hd
      obtain ⟨hd, hfile⟩ := List.mem_filter.mp hd
      apply (List.mem_cons.mp (covered d hd)).resolve_left
      simpa using hfile
    rw [List.flatMap_cons, others]
    exact ((ih nodup left).append_left _).trans (List.filter_append_perm _ _)

/-- The entries of any sort may be counted file by file. -/
theorem sum_countP_forFile (nodup : files.Nodup) (covered : ∀ d ∈ r.entries, d.file ∈ files)
    (sort : Diagnostic → Bool) :
    (files.map fun f => (r.forFile f).countP sort).sum = r.entries.countP sort := by
  rw [← (perm_flatMap_forFile nodup covered).countP_eq, List.countP_flatMap]
  rfl

theorem hasErrors_iff_errorCount_pos : r.hasErrors = true ↔ 0 < r.errorCount := by
  rw [hasErrors, errorCount, List.any_eq_true, List.countP_pos_iff]

end Shares

/-- At each time, a report holds what was added since it was last emptied. If it is emptied
only by taking everything, nothing that was added is lost, repeated or moved. The shares of
the files make up the entries, and the numbers of errors and of warnings are the sums of
those in the shares. -/
theorem operations_keep_account (ops : List Operation) :
    let a := Account.after ops
    a.report.entries = (ops.rtakeWhile (·.added?.isSome)).filterMap Operation.added? ∧
    ((∀ op ∈ ops, op = .take ∨ ∃ d, op = .add d) →
      a.handedOut.flatten ++ a.report.entries = ops.filterMap Operation.added?) ∧
    (∀ (f : SourceFile) (part : List Diagnostic), part.Sublist (a.report.forFile f) ↔
      part.Sublist a.report.entries ∧ ∀ d ∈ part, d.file = f) ∧
    (∀ files : List SourceFile, files.Nodup →
      (∀ f, f ∈ files ↔ ∃ d ∈ a.report.entries, d.file = f) →
      (files.flatMap a.report.forFile).Perm a.report.entries ∧
      (files.map fun f => (Report.mk (a.report.forFile f)).errorCount).sum =
        a.report.errorCount ∧
      (files.map fun f => (Report.mk (a.report.forFile f)).warningCount).sum =
        a.report.warningCount) ∧
    (a.report.hasErrors = true ↔ 0 < a.report.errorCount) := by
  intro a
  refine ⟨Account.entries_after ops, Account.total_after, fun f part => sublist_forFile_iff, ?_,
    hasErrors_iff_errorCount_pos⟩
  intro files nodup present
  have covered : ∀ d ∈ a.report.entries, d.file ∈ files := fun d hd =>
    (present d.file).mpr ⟨d, hd, rfl⟩
  exact ⟨perm_flatMap_forFile nodup covered, sum_countP_forFile nodup covered _,
    sum_countP_forFile nodup covered _⟩

def dispatch : List Operation :=
  [.add { severity := .error, message := "a" },
    .add { file := ⟨1⟩, severity := .hint, message := "b" },
    .take,
    .add { file := ⟨1⟩, severity := .error, message := "b" },
    .add { severity := .warning, message := "c" },
    .add { file := ⟨1⟩, severity := .error, message := "b" }]

theorem operations_keep_account_of_dispatch :
    let a := Account.after dispatch
    (∀ op ∈ dispatch, op = .take ∨ ∃ d, op = .add d) ∧
    a.handedOut.flatten ++ a.report.entries = dispatch.filterMap Operation.added? ∧
    a.handedOut.map List.length = [2] ∧ a.report.size = 3 ∧
    (∀ f, f ∈ [⟨1⟩, ⟨0⟩] ↔ ∃ d ∈ a.report.entries, d.file = f) ∧
    (([⟨1⟩, ⟨0⟩] : List SourceFile).flatMap a.report.forFile).Perm a.report.entries ∧
    ([⟨1⟩, ⟨0⟩] : List SourceFile).flatMap a.report.forFile ≠ a.report.entries ∧
    a.report.errorCount = 2 ∧ a.report.hasErrors = true := by
  intro a
  obtain ⟨-, total, -, shares, errors⟩ := operations_keep_account dispatch
  have taken : ∀ op ∈ dispatch, op = .take ∨ ∃ d, op = .add d := by
    simp [dispatch]
  have present : ∀ f, f ∈ [⟨1⟩, ⟨0⟩] ↔ ∃ d ∈ a.report.entries, d.file = f := by
    intro f
    have files : a.report.entries.map Diagnostic.file = [⟨1⟩, ⟨0⟩, ⟨1⟩] := rfl
    rw [← List.mem_map, files]
    grind
  exact ⟨taken, total taken, rfl, rfl, present, (shares _ (by decide) present).1, by decide, rfl,
    errors.mpr (by decide)⟩

end MetamodelValidation.Report

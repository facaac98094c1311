import MetamodelValidation.Proofs.Compaction

/-! # The first of each key

Deduplication goes through a list and remembers the keys it has met. What it keeps can
be told without going through the list: the diagnostics at those positions before which
no other has the same key. Diagnostics of one key may differ in all else, and then the
first of them stands for the others.
-/

namespace MetamodelValidation

namespace Diagnostic

def FirstOfKey (ds : List Diagnostic) (i : Nat) : Prop :=
  ∀ j < i, ds[j]?.map key ≠ ds[i]?.map key

instance (ds : List Diagnostic) (i : Nat) : Decidable (FirstOfKey ds i) :=
  inferInstanceAs (Decidable (∀ j < i, ds[j]?.map key ≠ ds[i]?.map key))

theorem firstOfKey_append_iff {front back : List Diagnostic} {d : Diagnostic} :
    FirstOfKey (front ++ d :: back) front.length ↔ d.key ∉ front.map key := by
  have here : (front ++ d :: back)[front.length]? = some d := by simp
  rw [FirstOfKey, here, List.mem_map]
  constructor
  · rintro first ⟨e, he, same⟩
    obtain ⟨j, hj, rfl⟩ := List.getElem_of_mem he
    apply first j hj
    rw [List.getElem?_append_left hj, List.getElem?_eq_getElem hj]
    simpa using same
  · intro new j hj same
    rw [List.getElem?_append_left hj, List.getElem?_eq_getElem hj] at same
    exact new ⟨_, List.getElem_mem hj, by simpa using same⟩

/-- The keys remembered are those of the diagnostics gone through. -/
def KeysOf (seen : List Key) (front : List Diagnostic) : Prop :=
  ∀ k, k ∈ seen ↔ k ∈ front.map key

theorem KeysOf.repeated {seen : List Key} {front : List Diagnostic} {d : Diagnostic}
    (h : KeysOf seen front) (old : d.key ∈ seen) : KeysOf seen (front ++ [d]) := by
  intro k
  rw [List.map_append, List.mem_append, List.map_singleton, List.mem_singleton, ← h]
  refine ⟨.inl, ?_⟩
  rintro (met | rfl)
  · exact met
  · exact old

theorem KeysOf.first {seen : List Key} {front : List Diagnostic} (h : KeysOf seen front)
    (d : Diagnostic) : KeysOf (d.key :: seen) (front ++ [d]) := by
  intro k
  rw [List.map_append, List.mem_append, List.map_singleton, List.mem_singleton, List.mem_cons, h,
    or_comm]

theorem KeysOf.firstOfKey_iff {seen : List Key} {front : List Diagnostic}
    (h : KeysOf seen front) {d : Diagnostic} {back : List Diagnostic} :
    FirstOfKey (front ++ d :: back) front.length ↔ d.key ∉ seen := by
  rw [firstOfKey_append_iff, h]

/-- What is kept of the diagnostics to come are the first ones of their keys, judged by the
whole list. -/
theorem map_some_distinctFrom {seen : List Key} {front : List Diagnostic}
    (h : KeysOf seen front) (ds : List Diagnostic) :
    (distinctFrom seen ds).map some =
      ((List.range' front.length ds.length).filter (FirstOfKey (front ++ ds))).map
        ((front ++ ds)[·]?) := by
  induction ds generalizing seen front with
  | nil => rfl
  | cons d ds ih =>
    have here : (front ++ d :: ds)[front.length]? = some d := by simp
    have split : front ++ d :: ds = front ++ [d] ++ ds := by simp
    have length : front.length + 1 = (front ++ [d]).length := by simp
    rw [List.length_cons, List.range'_succ]
    by_cases old : d.key ∈ seen
    · have later : ¬FirstOfKey (front ++ d :: ds) front.length := fun first =>
        h.firstOfKey_iff.mp first old
      rw [distinctFrom_cons_of_mem ds old, List.filter_cons_of_neg (by simpa using later),
        split, length]
      exact ih (h.repeated old)
    · have first : FirstOfKey (front ++ d :: ds) front.length := h.firstOfKey_iff.mpr old
      rw [distinctFrom_cons_of_not_mem ds old, List.filter_cons_of_pos (by simpa using first),
        List.map_cons, List.map_cons, here, split, length]
      congr 1
      exact ih (h.first d)

theorem map_some_distinct (ds : List Diagnostic) :
    (distinct ds).map some =
      ((List.range ds.length).filter (FirstOfKey ds)).map (ds[·]?) := by
  have start : KeysOf [] [] := fun _ => Iff.rfl
  rw [List.range_eq_range']
  exact map_some_distinctFrom start ds

theorem distinct_eq_self_iff {ds : List Diagnostic} : distinct ds = ds ↔ (ds.map key).Nodup := by
  constructor
  · intro same
    rw [← same]
    exact nodup_keys_distinct ds
  · exact distinct_eq_self

end Diagnostic

namespace Suite

/-- Deduplication keeps the first diagnostic of each key and no other. This is also what a
run does that drops repetitions, if its checks do not look whether it does. -/
theorem takeDistinct_keeps_first_of_key :
    (∀ r : Report,
      r.takeDistinct.1.Sublist r.entries ∧ (r.takeDistinct.1.map Diagnostic.key).Nodup ∧
      (∀ k, k ∈ r.takeDistinct.1.map Diagnostic.key ↔ k ∈ r.entries.map Diagnostic.key) ∧
      r.takeDistinct.1.map some =
        ((List.range r.entries.length).filter (Diagnostic.FirstOfKey r.entries)).map
          (r.entries[·]?) ∧
      r.takeDistinct.2 = {} ∧
      (r.takeDistinct.1 = r.entries ↔ (r.entries.map Diagnostic.key).Nodup) ∧
      (r.takeDistinct.1.foldl Report.add r.takeDistinct.2).takeDistinct.1 = r.takeDistinct.1) ∧
    ∀ suite : Suite,
      (∀ check ∈ suite.checks, check.ReadsOnly fun s => (s.disabled, s.elementCap)) →
      ∀ settings : Settings, (∀ name ∈ settings.disabled, name ∈ suite.names) →
      ∀ (model : Metamodel) (file : SourceFile), ∃ all : List Diagnostic,
        suite.validate (settings.withDeduplicate false) model file = .ok all ∧
        suite.validate (settings.withDeduplicate true) model file =
          .ok (Report.mk all).takeDistinct.1 := by
  constructor
  · intro r
    refine ⟨Diagnostic.distinct_sublist r.entries, Diagnostic.nodup_keys_distinct r.entries,
      fun k => Diagnostic.mem_keys_distinct, Diagnostic.map_some_distinct r.entries, rfl,
      Diagnostic.distinct_eq_self_iff, ?_⟩
    exact r.alike_compact
  · intro suite reads settings known model file
    exact exists_validate_withDeduplicate known model file reads

/-- The remark that comes second on the class is dropped, though it is an error. -/
theorem takeDistinct_keeps_first_of_key_of_escalating :
    (∀ check ∈ escalating.checks, check.ReadsOnly fun s => (s.disabled, s.elementCap)) ∧
    ∃ all : List Diagnostic,
      escalating.validate (({} : Settings).withDeduplicate false) { classes := [.faulty] } {} =
        .ok all ∧
      escalating.validate (({} : Settings).withDeduplicate true) { classes := [.faulty] } {} =
        .ok (Report.mk all).takeDistinct.1 ∧
      (List.range all.length).filter (Diagnostic.FirstOfKey all) = [0, 1] ∧
      (Report.mk all).takeDistinct.1.map some = [all[0]?, all[1]?] ∧ all.length = 3 := by
  obtain ⟨all, off, on⟩ := takeDistinct_keeps_first_of_key.2 escalating (readsOnly_escalating _) {}
    escalating.known_empty { classes := [.faulty] } {}
  have first : (List.range all.length).filter (Diagnostic.FirstOfKey all) = [0, 1] :=
    apply_eq_of_validate off (f := fun ds =>
      (List.range ds.length).filter (Diagnostic.FirstOfKey ds)) rfl
  have kept := (takeDistinct_keeps_first_of_key.1 (Report.mk all)).2.2.2.1
  refine ⟨readsOnly_escalating _, all, off, on, first, ?_, apply_eq_of_validate off rfl⟩
  rw [kept, first]
  rfl

end Suite

end MetamodelValidation

import MetamodelValidation.Diagnostic
import MetamodelValidation.Settings

/-! # Dropping repeated diagnostics

Only the keys met so far decide what is dropped. So deduplication keeps every
key, leaves a list without repeated keys as it is, and commutes with each filter
that does not tell diagnostics of one key apart, and with each change of them that
tells keys apart as before.
-/

namespace MetamodelValidation

namespace Diagnostic

theorem distinctFrom_cons_of_mem {seen : List Key} {d : Diagnostic} (ds : List Diagnostic)
    (h : d.key ∈ seen) : distinctFrom seen (d :: ds) = distinctFrom seen ds :=
  if_pos h

theorem distinctFrom_cons_of_not_mem {seen : List Key} {d : Diagnostic} (ds : List Diagnostic)
    (h : d.key ∉ seen) : distinctFrom seen (d :: ds) = d :: distinctFrom (d.key :: seen) ds :=
  if_neg h

theorem distinctFrom_sublist (seen : List Key) (ds : List Diagnostic) :
    (distinctFrom seen ds).Sublist ds := by
  induction ds generalizing seen with
  | nil => exact .slnil
  | cons d ds ih =>
    by_cases h : d.key ∈ seen
    · rw [distinctFrom_cons_of_mem ds h]
      exact (ih seen).cons d
    · rw [distinctFrom_cons_of_not_mem ds h]
      exact (ih (d.key :: seen)).cons_cons d

/-- The keys of the diagnostics kept are those given that were not seen before. -/
theorem mem_keys_distinctFrom {seen : List Key} {ds : List Diagnostic} {k : Key} :
    k ∈ (distinctFrom seen ds).map key ↔ k ∈ ds.map key ∧ k ∉ seen := by
  induction ds generalizing seen with
  | nil => simp [distinctFrom]
  | cons d ds ih =>
    by_cases h : d.key ∈ seen
    · rw [distinctFrom_cons_of_mem ds h, ih, List.map_cons, List.mem_cons]
      constructor
      · rintro ⟨hk, hseen⟩
        exact ⟨.inr hk, hseen⟩
      · rintro ⟨rfl | hk, hseen⟩
        · exact absurd h hseen
        · exact ⟨hk, hseen⟩
    · rw [distinctFrom_cons_of_not_mem ds h, List.map_cons, List.map_cons, List.mem_cons,
        List.mem_cons, ih, List.mem_cons]
      by_cases hk : k = d.key
      · simp [hk, h]
      · simp [hk]

/-- No two of the diagnostics kept share a key. -/
theorem nodup_keys_distinctFrom (seen : List Key) (ds : List Diagnostic) :
    ((distinctFrom seen ds).map key).Nodup := by
  induction ds generalizing seen with
  | nil => exact List.nodup_nil
  | cons d ds ih =>
    by_cases h : d.key ∈ seen
    · rw [distinctFrom_cons_of_mem ds h]
      exact ih seen
    · rw [distinctFrom_cons_of_not_mem ds h, List.map_cons, List.nodup_cons]
      refine ⟨fun hmem => ?_, ih (d.key :: seen)⟩
      exact (mem_keys_distinctFrom.mp hmem).2 List.mem_cons_self

/-- A change of diagnostics that keeps different keys different, and equal ones
equal, may be made before or after. -/
theorem map_distinctFrom {change : Diagnostic → Diagnostic} {seen seen' : List Key}
    {ds : List Diagnostic} (hseen : ∀ d ∈ ds, d.key ∈ seen ↔ (change d).key ∈ seen')
    (hkey : ∀ d ∈ ds, ∀ e ∈ ds, d.key = e.key ↔ (change d).key = (change e).key) :
    (distinctFrom seen ds).map change = distinctFrom seen' (ds.map change) := by
  induction ds generalizing seen seen' with
  | nil => rfl
  | cons d ds ih =>
    have hhead := hseen d List.mem_cons_self
    have hseen' : ∀ e ∈ ds, e.key ∈ seen ↔ (change e).key ∈ seen' := fun e he =>
      hseen e (List.mem_cons_of_mem d he)
    have hkey' : ∀ e ∈ ds, ∀ e' ∈ ds, e.key = e'.key ↔ (change e).key = (change e').key :=
      fun e he e' he' => hkey e (List.mem_cons_of_mem d he) e' (List.mem_cons_of_mem d he')
    rw [List.map_cons]
    by_cases hd : d.key ∈ seen
    · rw [distinctFrom_cons_of_mem ds hd, distinctFrom_cons_of_mem _ (hhead.mp hd),
        ih hseen' hkey']
    · rw [distinctFrom_cons_of_not_mem ds hd,
        distinctFrom_cons_of_not_mem _ (fun hd' => hd (hhead.mpr hd')), List.map_cons]
      congr 1
      refine ih ?_ hkey'
      intro e he
      rw [List.mem_cons, List.mem_cons, hseen' e he,
        hkey e (List.mem_cons_of_mem d he) d List.mem_cons_self]

/-- What was seen matters only as far as it has keys of the diagnostics to come. -/
theorem distinctFrom_congr {seen seen' : List Key} {ds : List Diagnostic}
    (h : ∀ d ∈ ds, d.key ∈ seen ↔ d.key ∈ seen') :
    distinctFrom seen ds = distinctFrom seen' ds := by
  have hmap := @map_distinctFrom id seen seen' ds h fun _ _ _ _ => Iff.rfl
  rwa [List.map_id, List.map_id] at hmap

theorem distinctFrom_eq_self {seen : List Key} {ds : List Diagnostic}
    (hnodup : (ds.map key).Nodup) (hnew : ∀ d ∈ ds, d.key ∉ seen) :
    distinctFrom seen ds = ds := by
  induction ds generalizing seen with
  | nil => rfl
  | cons d ds ih =>
    rcases List.nodup_cons.mp hnodup with ⟨hd, hds⟩
    rw [distinctFrom_cons_of_not_mem ds (hnew d List.mem_cons_self)]
    congr 1
    apply ih hds
    intro e he hmem
    rcases List.mem_cons.mp hmem with heq | hseen
    · exact hd (heq ▸ List.mem_map_of_mem he)
    · exact hnew e (List.mem_cons_of_mem d he) hseen

/-- A filter that keeps all diagnostics of a key or none may be applied before. -/
theorem filter_distinctFrom {keep : Diagnostic → Bool} {ds : List Diagnostic} (seen : List Key)
    (h : ∀ d ∈ ds, ∀ e ∈ ds, d.key = e.key → keep d = keep e) :
    (distinctFrom seen ds).filter keep = distinctFrom seen (ds.filter keep) := by
  induction ds generalizing seen with
  | nil => rfl
  | cons d ds ih =>
    have htail : ∀ e ∈ ds, ∀ e' ∈ ds, e.key = e'.key → keep e = keep e' := fun e he e' he' =>
      h e (List.mem_cons_of_mem d he) e' (List.mem_cons_of_mem d he')
    by_cases hkeep : keep d = true
    · rw [List.filter_cons_of_pos hkeep]
      by_cases hd : d.key ∈ seen
      · rw [distinctFrom_cons_of_mem ds hd, distinctFrom_cons_of_mem _ hd, ih seen htail]
      · rw [distinctFrom_cons_of_not_mem ds hd, distinctFrom_cons_of_not_mem _ hd,
          List.filter_cons_of_pos hkeep, ih _ htail]
    · rw [List.filter_cons_of_neg hkeep]
      by_cases hd : d.key ∈ seen
      · rw [distinctFrom_cons_of_mem ds hd, ih seen htail]
      · rw [distinctFrom_cons_of_not_mem ds hd, List.filter_cons_of_neg hkeep, ih _ htail]
        -- No diagnostic that passes the filter has the key that was just seen.
        apply distinctFrom_congr
        intro e he
        obtain ⟨hmem, hpass⟩ := List.mem_filter.mp he
        rw [List.mem_cons]
        refine or_iff_right fun heq => hkeep ?_
        rw [h d List.mem_cons_self e (List.mem_cons_of_mem d hmem) heq.symm, hpass]

/-- What comes later is held against the keys of all that stands before it. -/
theorem distinctFrom_append (seen : List Key) (ds es : List Diagnostic) :
    distinctFrom seen (ds ++ es) =
      distinctFrom seen ds ++ distinctFrom (ds.map key ++ seen) es := by
  induction ds generalizing seen with
  | nil => rfl
  | cons d ds ih =>
    rw [List.cons_append]
    by_cases h : d.key ∈ seen
    · rw [distinctFrom_cons_of_mem _ h, distinctFrom_cons_of_mem _ h, ih]
      congr 1
      apply distinctFrom_congr
      intro e _
      grind
    · rw [distinctFrom_cons_of_not_mem _ h, distinctFrom_cons_of_not_mem _ h, ih, List.cons_append]
      congr 2
      apply distinctFrom_congr
      intro e _
      grind

/-- A diagnostic is kept where no earlier one has its key. -/
theorem mem_distinctFrom_iff {seen : List Key} {ds : List Diagnostic} {d : Diagnostic} :
    d ∈ distinctFrom seen ds ↔ d.key ∉ seen ∧
      ∃ front back, ds = front ++ d :: back ∧ ∀ e ∈ front, e.key ≠ d.key := by
  constructor
  · intro h
    induction ds generalizing seen with
    | nil => exact absurd h List.not_mem_nil
    | cons x ds ih =>
      by_cases hx : x.key ∈ seen
      · rw [distinctFrom_cons_of_mem ds hx] at h
        obtain ⟨hd, front, back, rfl, hfront⟩ := ih h
        refine ⟨hd, x :: front, back, rfl, List.forall_mem_cons.mpr ⟨?_, hfront⟩⟩
        exact fun hkey => hd (hkey ▸ hx)
      · rw [distinctFrom_cons_of_not_mem ds hx] at h
        rcases List.mem_cons.mp h with rfl | h
        · exact ⟨hx, [], ds, rfl, fun _ he => absurd he List.not_mem_nil⟩
        · obtain ⟨hd, front, back, rfl, hfront⟩ := ih h
          rw [List.mem_cons, not_or] at hd
          refine ⟨hd.2, x :: front, back, rfl, List.forall_mem_cons.mpr ⟨?_, hfront⟩⟩
          exact Ne.symm hd.1
  · rintro ⟨hd, front, back, rfl, hfront⟩
    have new : d.key ∉ front.map key ++ seen := by
      rw [List.mem_append, List.mem_map]
      rintro (⟨e, he, hkey⟩ | hseen)
      · exact hfront e he hkey
      · exact hd hseen
    rw [distinctFrom_append, distinctFrom_cons_of_not_mem back new]
    exact List.mem_append_right _ List.mem_cons_self

theorem distinct_sublist (ds : List Diagnostic) : (distinct ds).Sublist ds :=
  distinctFrom_sublist [] ds

theorem mem_keys_distinct {ds : List Diagnostic} {k : Key} :
    k ∈ (distinct ds).map key ↔ k ∈ ds.map key := by
  rw [distinct, mem_keys_distinctFrom]
  simp

theorem nodup_keys_distinct (ds : List Diagnostic) : ((distinct ds).map key).Nodup :=
  nodup_keys_distinctFrom [] ds

/-- In another order other diagnostics may be kept, but they have the same keys. -/
theorem perm_keys_distinct {ds es : List Diagnostic} (h : ds.Perm es) :
    ((distinct ds).map key).Perm ((distinct es).map key) := by
  apply (List.perm_ext_iff_of_nodup (nodup_keys_distinct ds) (nodup_keys_distinct es)).mpr
  intro k
  rw [mem_keys_distinct, mem_keys_distinct, (h.map key).mem_iff]

theorem distinct_eq_self {ds : List Diagnostic} (h : (ds.map key).Nodup) : distinct ds = ds :=
  distinctFrom_eq_self h fun _ _ => List.not_mem_nil

/-- To drop repetitions early changes nothing of what is kept in the end. -/
theorem distinct_distinct_append (ds es : List Diagnostic) :
    distinct (distinct ds ++ es) = distinct (ds ++ es) := by
  have kept : distinctFrom [] (distinct ds) = distinctFrom [] ds :=
    distinct_eq_self (nodup_keys_distinct ds)
  have later : distinctFrom ((distinct ds).map key ++ []) es =
      distinctFrom (ds.map key ++ []) es := by
    apply distinctFrom_congr
    intro e _
    rw [List.append_nil, List.append_nil, mem_keys_distinct]
  calc distinctFrom [] (distinct ds ++ es)
      = distinctFrom [] (distinct ds) ++ distinctFrom ((distinct ds).map key ++ []) es :=
        distinctFrom_append [] (distinct ds) es
    _ = distinctFrom [] ds ++ distinctFrom (ds.map key ++ []) es := by rw [kept, later]
    _ = distinctFrom [] (ds ++ es) := (distinctFrom_append [] ds es).symm

theorem filter_distinct {keep : Diagnostic → Bool} {ds : List Diagnostic}
    (h : ∀ d ∈ ds, ∀ e ∈ ds, d.key = e.key → keep d = keep e) :
    (distinct ds).filter keep = distinct (ds.filter keep) :=
  filter_distinctFrom [] h

/-- Nothing is lost to additions if those in the middle share no key with what
comes after them. -/
theorem distinct_append_sublist {as xs bs : List Diagnostic}
    (h : ∀ x ∈ xs, ∀ b ∈ bs, x.key ≠ b.key) (ys : List Diagnostic) :
    (distinct (as ++ bs)).Sublist (distinct (as ++ xs ++ (bs ++ ys))) := by
  have hseen : distinctFrom ((as ++ xs).map key) bs = distinctFrom (as.map key) bs := by
    apply distinctFrom_congr
    intro b hb
    have hxs : b.key ∉ xs.map key := by
      intro hmem
      obtain ⟨x, hx, hkey⟩ := List.mem_map.mp hmem
      exact h x hx b hb hkey
    rw [List.map_append, List.mem_append, or_iff_left hxs]
  simp only [distinct, distinctFrom_append _ (as ++ xs), distinctFrom_append _ as,
    distinctFrom_append _ bs, List.append_nil, hseen]
  exact (List.sublist_append_left _ _).append (List.sublist_append_left _ _)

theorem mem_distinct_iff {ds : List Diagnostic} {d : Diagnostic} :
    d ∈ distinct ds ↔ ∃ front back, ds = front ++ d :: back ∧ ∀ e ∈ front, e.key ≠ d.key := by
  rw [distinct, mem_distinctFrom_iff, and_iff_right List.not_mem_nil]

/-- Every diagnostic is still represented after deduplication. -/
theorem exists_mem_distinct {ds : List Diagnostic} {d : Diagnostic} (h : d ∈ ds) :
    ∃ e ∈ distinct ds, e.key = d.key :=
  List.mem_map.mp (mem_keys_distinct.mpr (List.mem_map_of_mem h))

end Diagnostic

namespace Settings

/-- What is handed out of all that was reported. -/
def shape (s : Settings) (ds : List Diagnostic) : List Diagnostic :=
  if s.deduplicate then Diagnostic.distinct ds else ds

theorem shape_sublist (s : Settings) (ds : List Diagnostic) : (s.shape ds).Sublist ds := by
  unfold shape
  split
  · exact Diagnostic.distinct_sublist ds
  · exact List.Sublist.refl ds

theorem exists_mem_shape (s : Settings) {ds : List Diagnostic} {d : Diagnostic} (h : d ∈ ds) :
    ∃ e ∈ s.shape ds, e.key = d.key := by
  unfold shape
  split
  · exact Diagnostic.exists_mem_distinct h
  · exact ⟨d, h, rfl⟩

/-- If repetitions are dropped, the change must keep different keys different. -/
theorem map_shape (s : Settings) {change : Diagnostic → Diagnostic} {ds : List Diagnostic}
    (h : s.deduplicate = true →
      ∀ d ∈ ds, ∀ e ∈ ds, d.key = e.key ↔ (change d).key = (change e).key) :
    (s.shape ds).map change = s.shape (ds.map change) := by
  unfold shape
  split
  · rename_i on
    exact Diagnostic.map_distinctFrom (fun _ _ => by simp) (h on)
  · rfl

theorem shape_eq_nil_iff {s : Settings} {ds : List Diagnostic} : s.shape ds = [] ↔ ds = [] := by
  constructor
  · intro h
    cases ds with
    | nil => rfl
    | cons d ds =>
      rcases s.exists_mem_shape (List.mem_cons_self : d ∈ d :: ds) with ⟨e, he, -⟩
      exact absurd (h ▸ he) List.not_mem_nil
  · rintro rfl
    exact List.sublist_nil.mp (s.shape_sublist [])

end Settings

end MetamodelValidation

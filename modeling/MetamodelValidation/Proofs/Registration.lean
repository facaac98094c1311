import MetamodelValidation.Proofs.SuiteRuns

/-! # Histories of registration

A suite is built up by requests, each for one check or for all built-in checks. Some of
them are refused, and a refusal in the middle of the built-in checks leaves a part of
them registered. Through all of this a suite only grows at its end: where a check came
to stand when its name was first registered, there it stays.
-/

namespace MetamodelValidation.Suite

inductive Request where
  | register (check : Check)
  | registerBuiltin

def Request.checks : Request → List Check
  | register check => [check]
  | registerBuiltin => builtinChecks

/-- Serves a request. A check that is refused leaves the suite as it is. -/
def serve (s : Suite) : Request → Suite × Option SetupError
  | .register check =>
    match s.register check with
    | .ok t => (t, none)
    | .error e => (s, some e)
  | .registerBuiltin => s.registerAll builtinChecks

def serveAll (s : Suite) (requests : List Request) : Suite :=
  requests.foldl (fun t request => (t.serve request).1) s

theorem serve_eq_registerAll (s : Suite) (request : Request) :
    s.serve request = s.registerAll request.checks := by
  cases request with
  | register check =>
    rw [serve, Request.checks, registerAll]
    cases s.register check <;> rfl
  | registerBuiltin => rfl

theorem contains_iff {s : Suite} {name : String} : s.contains name = true ↔ name ∈ s.names := by
  simp [contains]

theorem getElem?_names {s : Suite} {i : Nat} {check : Check} (h : s.checks[i]? = some check) :
    s.names[i]? = some check.name := by
  simp [names, h]

section RegisterAll

variable {s t : Suite} {front : List Check} {check : Check}

theorem registerAll_cons_of_taken (taken : check.name ∈ s.names) (back : List Check) :
    s.registerAll (check :: back) = (s, some (.duplicateCheck check.name)) := by
  simp [registerAll, register_eq_error taken]

theorem registerAll_append (h : s.registerAll front = (t, none)) (back : List Check) :
    s.registerAll (front ++ back) = t.registerAll back := by
  induction front generalizing s with
  | nil =>
    cases h
    rfl
  | cons check front ih =>
    rw [List.cons_append, registerAll]
    rw [registerAll] at h
    cases register : s.register check with
    | ok s' =>
      rw [register] at h
      exact ih h
    | error e => simp [register] at h

section Free

variable (distinct : (front.map Check.name).Nodup) (free : ∀ c ∈ front, c.name ∉ s.names)

include distinct free

theorem registerAll_of_free :
    ∃ t, s.registerAll front = (t, none) ∧ t.checks = s.checks ++ front := by
  have nodup : ((s.checks ++ front).map Check.name).Nodup := by
    rw [List.map_append, List.nodup_append]
    refine ⟨s.nodup, distinct, ?_⟩
    rintro name old _ new rfl
    obtain ⟨c, hc, rfl⟩ := List.mem_map.mp new
    exact free c hc old
  exact ⟨_, registerAll_eq s nodup, rfl⟩

/-- The first check whose name is taken is named in the error, and those before it stay. -/
theorem registerAll_of_taken (taken : check.name ∈ s.names) (back : List Check) :
    ∃ t, s.registerAll (front ++ check :: back) = (t, some (.duplicateCheck check.name)) ∧
      t.checks = s.checks ++ front := by
  rcases registerAll_of_free distinct free with ⟨t, registered, grown⟩
  have still : check.name ∈ t.names := by
    rw [names, grown, List.map_append]
    exact List.mem_append_left _ taken
  exact ⟨t, by rw [registerAll_append registered, registerAll_cons_of_taken still], grown⟩

end Free

/-- Whether refused or not, checks are added at the end only. -/
theorem exists_checks_registerAll (s : Suite) (checks : List Check) :
    ∃ added, added <+: checks ∧ (s.registerAll checks).1.checks = s.checks ++ added := by
  induction checks generalizing s with
  | nil => exact ⟨[], List.prefix_rfl, by simp [registerAll]⟩
  | cons check checks ih =>
    by_cases taken : check.name ∈ s.names
    · exact ⟨[], List.nil_prefix, by simp [registerAll_cons_of_taken taken]⟩
    · rcases ih ⟨s.checks ++ [check], nodup_append_singleton taken⟩ with ⟨added, offered, grown⟩
      refine ⟨check :: added, List.cons_prefix_cons.mpr ⟨rfl, offered⟩, ?_⟩
      rw [registerAll, register_eq_ok taken]
      simpa using grown

end RegisterAll

/-- What one request can do to a suite. -/
theorem exists_checks_serve (s : Suite) (request : Request) :
    ∃ added, (s.serve request).1.checks = s.checks ++ added ∧
      ∀ check ∈ added, check ∈ request.checks ∧ check.name ∉ s.names := by
  rw [serve_eq_registerAll]
  rcases exists_checks_registerAll s request.checks with ⟨added, offered, grown⟩
  refine ⟨added, grown, fun check hcheck => ⟨offered.subset hcheck, fun taken => ?_⟩⟩
  have nodup := (s.registerAll request.checks).1.nodup
  rw [grown, List.map_append, List.nodup_append] at nodup
  exact nodup.2.2 check.name taken check.name (List.mem_map_of_mem hcheck) rfl

section ServeAll

variable {start : Suite} {requests : List Request}

theorem serveAll_cons (s : Suite) (request : Request) (requests : List Request) :
    s.serveAll (request :: requests) = (s.serve request).1.serveAll requests := rfl

theorem checks_prefix_serveAll (s : Suite) (requests : List Request) :
    s.checks <+: (s.serveAll requests).checks := by
  induction requests generalizing s with
  | nil => exact List.prefix_rfl
  | cons request requests ih =>
    rcases exists_checks_serve s request with ⟨added, grown, -⟩
    have step : s.checks <+: (s.serve request).1.checks := ⟨added, grown.symm⟩
    rw [serveAll_cons]
    exact step.trans (ih (s.serve request).1)

theorem checks_take_prefix_serveAll (start : Suite) (requests : List Request) (n : Nat) :
    (start.serveAll (requests.take n)).checks <+: (start.serveAll requests).checks := by
  have split : start.serveAll requests =
      (start.serveAll (requests.take n)).serveAll (requests.drop n) := by
    rw [serveAll, serveAll, serveAll, ← List.foldl_append, List.take_append_drop]
  rw [split]
  exact checks_prefix_serveAll _ _

/-- A check that was not there at the start came in by a request that offered it, at a time
when its name was new. It took its place then. -/
theorem exists_request_of_getElem? {i : Nat} {check : Check}
    (h : (start.serveAll requests).checks[i]? = some check) :
    start.checks[i]? = some check ∨
      ∃ (n : Nat) (request : Request), requests[n]? = some request ∧ check ∈ request.checks ∧
        check.name ∉ (start.serveAll (requests.take n)).names ∧
        (start.serveAll (requests.take (n + 1))).checks[i]? = some check := by
  -- The requests after the first are served by the suite that it leaves, so a check that
  -- was there before them came in at the start or by the first request.
  induction requests generalizing start with
  | nil => exact .inl h
  | cons request requests ih =>
    rw [serveAll_cons] at h
    rcases ih h with first | ⟨n, later, hlater, offered, fresh, place⟩
    · rcases exists_checks_serve start request with ⟨added, grown, new⟩
      have found := first
      rw [grown, List.getElem?_append] at found
      split at found
      · exact .inl found
      · obtain ⟨offered, fresh⟩ := new check (List.mem_of_getElem? found)
        exact .inr ⟨0, request, rfl, offered, fresh, first⟩
    · exact .inr ⟨n + 1, later, hlater, offered, fresh, place⟩

end ServeAll

/-- The outcome of registering one check. -/
theorem serve_register (s : Suite) (check : Check) :
    if s.contains check.name then
      s.serve (.register check) = (s, some (.duplicateCheck check.name))
    else ∃ t, s.serve (.register check) = (t, none) ∧ t.checks = s.checks ++ [check] := by
  simp only [serve_eq_registerAll, Request.checks, contains_iff]
  by_cases taken : check.name ∈ s.names
  · rw [if_pos taken]
    exact registerAll_cons_of_taken taken []
  · rw [if_neg taken]
    exact registerAll_of_free (by simp) (List.forall_mem_singleton.mpr taken)

/-- The outcome of registering the built-in checks, by the first of their names that is
taken. -/
theorem serve_registerBuiltin (s : Suite) :
    if s.contains "attribute-default-value" then
      s.serve .registerBuiltin = (s, some (.duplicateCheck "attribute-default-value"))
    else if s.contains "duplicate-attribute" then
      ∃ t, s.serve .registerBuiltin = (t, some (.duplicateCheck "duplicate-attribute")) ∧
        t.checks = s.checks ++ [DefaultValue.check]
    else
      ∃ t, s.serve .registerBuiltin = (t, none) ∧ t.checks = s.checks ++ builtinChecks ∧
        t.names = s.names ++ ["attribute-default-value", "duplicate-attribute"] := by
  simp only [contains_iff]
  by_cases first : "attribute-default-value" ∈ s.names
  · rw [if_pos first]
    exact registerAll_cons_of_taken first [DuplicateAttribute.check]
  · rw [if_neg first]
    by_cases second : "duplicate-attribute" ∈ s.names
    · rw [if_pos second]
      have free : ∀ c ∈ [DefaultValue.check], c.name ∉ s.names :=
        List.forall_mem_singleton.mpr first
      exact registerAll_of_taken (by simp) free second []
    · rw [if_neg second]
      have free : ∀ c ∈ builtinChecks, c.name ∉ s.names :=
        List.forall_mem_cons.mpr ⟨first, List.forall_mem_singleton.mpr second⟩
      rcases registerAll_of_free builtin.nodup free with ⟨t, registered, grown⟩
      refine ⟨t, registered, grown, ?_⟩
      rw [names, grown, List.map_append]
      rfl

/-- Whatever was requested before, a suite holds its checks under different names and in
the order in which the names were first registered. A check with a taken name is refused
and changes nothing, and the built-in checks are registered up to the first that is
refused. -/
theorem registrations_keep_order (start : Suite) (requests : List Request) :
    let s := start.serveAll requests
    s.names.Nodup ∧ (∀ name, s.contains name = true ↔ name ∈ s.names) ∧
    s.size = s.names.length ∧ (s.isEmpty = true ↔ s.names.length = 0) ∧
    (∀ n, (start.serveAll (requests.take n)).checks <+: s.checks) ∧
    (∀ (i : Nat) (check : Check), s.checks[i]? = some check → s.names[i]? = some check.name ∧
      (start.checks[i]? = some check ∨
        ∃ (n : Nat) (request : Request), requests[n]? = some request ∧ check ∈ request.checks ∧
          check.name ∉ (start.serveAll (requests.take n)).names ∧
          (start.serveAll (requests.take (n + 1))).checks[i]? = some check)) ∧
    (∀ check, if s.contains check.name then
        s.serve (.register check) = (s, some (.duplicateCheck check.name))
      else ∃ t, s.serve (.register check) = (t, none) ∧ t.checks = s.checks ++ [check]) ∧
    (if s.contains "attribute-default-value" then
        s.serve .registerBuiltin = (s, some (.duplicateCheck "attribute-default-value"))
      else if s.contains "duplicate-attribute" then
        ∃ t, s.serve .registerBuiltin = (t, some (.duplicateCheck "duplicate-attribute")) ∧
          t.checks = s.checks ++ [DefaultValue.check]
      else
        ∃ t, s.serve .registerBuiltin = (t, none) ∧ t.checks = s.checks ++ builtinChecks ∧
          t.names = s.names ++ ["attribute-default-value", "duplicate-attribute"]) ∧
    ({} : Suite).serve .registerBuiltin = (builtin, none) := by
  intro s
  refine ⟨s.nodup, fun name => contains_iff, (List.length_map _).symm, ?_,
    checks_take_prefix_serveAll start requests, ?_, s.serve_register, s.serve_registerBuiltin,
    registerAll_eq {} builtin.nodup⟩
  · simp [isEmpty, names]
  · intro i check h
    exact ⟨getElem?_names h, exists_request_of_getElem? h⟩

def namesakes : List Request :=
  [.register (.remark "duplicate-attribute" .warning), .registerBuiltin,
    .register (.remark "duplicate-attribute" .error), .registerBuiltin]

/-- The first request for the built-in checks gets as far as the name that is taken, and
the second one nowhere. -/
theorem registrations_keep_order_of_namesakes :
    (({} : Suite).serveAll namesakes).checks =
      [.remark "duplicate-attribute" .warning, DefaultValue.check] ∧
    (∃ t, (({} : Suite).serveAll (namesakes.take 1)).serve .registerBuiltin =
        (t, some (.duplicateCheck "duplicate-attribute")) ∧
      t.checks = [.remark "duplicate-attribute" .warning, DefaultValue.check]) ∧
    (({} : Suite).serveAll namesakes).serve .registerBuiltin =
      (({} : Suite).serveAll namesakes, some (.duplicateCheck "attribute-default-value")) := by
  refine ⟨rfl, ?_, ?_⟩
  · rcases registrations_keep_order {} (namesakes.take 1) with ⟨-, -, -, -, -, -, -, outcome, -⟩
    rw [if_neg (by decide), if_pos (by decide)] at outcome
    exact outcome
  · rcases registrations_keep_order {} namesakes with ⟨-, -, -, -, -, -, -, outcome, -⟩
    rw [if_pos (by decide)] at outcome
    exact outcome

end MetamodelValidation.Suite

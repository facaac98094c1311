/-! # Sets of names

A finite set of names, kept in ascending order. The order makes equal sets equal
as data, and fixes in which order the names of a set are looked at.
-/

namespace MetamodelValidation

structure NameSet where
  names : List String
  ascending : names.Pairwise (· < ·)
deriving DecidableEq, Repr

namespace NameSet

instance : EmptyCollection NameSet := ⟨⟨[], List.Pairwise.nil⟩⟩

instance : Inhabited NameSet := ⟨∅⟩

instance : Membership String NameSet where
  mem s name := name ∈ s.names

instance (name : String) (s : NameSet) : Decidable (name ∈ s) :=
  inferInstanceAs (Decidable (name ∈ s.names))

theorem mem_def {name : String} {s : NameSet} : name ∈ s ↔ name ∈ s.names := Iff.rfl

/-- Puts a name in its place in an ascending list, unless it is there already. -/
def place (name : String) : List String → List String
  | [] => [name]
  | head :: tail =>
    if name < head then name :: head :: tail
    else if name = head then head :: tail
    else head :: place name tail

theorem mem_place {a name : String} {names : List String} :
    a ∈ place name names ↔ a = name ∨ a ∈ names := by
  induction names with
  | nil => simp [place]
  | cons head tail ih => grind [place]

theorem pairwise_place (name : String) {names : List String}
    (h : names.Pairwise (· < ·)) : (place name names).Pairwise (· < ·) := by
  induction names with
  | nil => simp [place]
  | cons head tail ih =>
    obtain ⟨above, rest⟩ := List.pairwise_cons.mp h
    unfold place
    split
    · rename_i below
      refine List.pairwise_cons.mpr ⟨fun a ha => ?_, h⟩
      rcases List.mem_cons.mp ha with rfl | ha
      · exact below
      · exact String.lt_trans below (above a ha)
    · split
      · exact h
      · refine List.pairwise_cons.mpr ⟨fun a ha => ?_, ih rest⟩
        rcases mem_place.mp ha with rfl | ha
        · grind
        · exact above a ha

def insert (s : NameSet) (name : String) : NameSet where
  names := place name s.names
  ascending := pairwise_place name s.ascending

@[simp] theorem not_mem_empty (name : String) : name ∉ (∅ : NameSet) :=
  List.not_mem_nil

@[simp] theorem mem_insert {a name : String} {s : NameSet} :
    a ∈ s.insert name ↔ a = name ∨ a ∈ s :=
  mem_place

end NameSet

end MetamodelValidation

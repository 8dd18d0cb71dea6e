import ClientForge.Proofs.Document.Listings
import ClientForge.Proofs.Document.Placed

/-!
# Tables of decoded graphs

A graph keeps its elements in tables, and walking through it meets those that its namespaces list. In the graph of
a document these are the same, each met once.

* **`allClasses_perm`**, **`allEnums_perm`.** The elements that a walk meets are those of the tables.
-/

namespace ClientForge

namespace Graph

variable (g : Graph)

/-- The class that an element is. -/
def classAt? : DefinitionId → Option ClassDef
  | .ofClass id => g.class? id
  | .ofEnum _ => none

/-- The enum that an element is. -/
def enumAt? : DefinitionId → Option Enum
  | .ofClass _ => none
  | .ofEnum id => g.enum? id

theorem allClasses_eq_filterMap : g.allClasses = g.root.listing.filterMap g.classAt? := by
  rw [Namespace.listing, List.filterMap_flatMap]
  refine List.flatMap_congr fun n _ => ?_
  simp [Namespace.own, Function.comp_def, classAt?]

theorem allEnums_eq_filterMap : g.allEnums = g.root.listing.filterMap g.enumAt? := by
  rw [Namespace.listing, List.filterMap_flatMap]
  refine List.flatMap_congr fun n _ => ?_
  simp [Namespace.own, Function.comp_def, enumAt?]

end Graph

namespace Document

open ClientForge.Graph

/-- Looking up every number of a table gives the table. -/
theorem filterMap_range {α : Type} (table : Array α) :
    (List.range table.size).filterMap (table[·]?) = table.toList := by
  have hmap : (List.range table.size).map (table[·]?) = table.toList.map some := by
    refine List.ext_getElem (by simp) fun i hi _ => ?_
    simp
  have hfilter := congrArg (List.filterMap id) hmap
  simpa only [List.filterMap_map, Function.id_comp, List.filterMap_some] using hfilter

section Decoded

variable {entry : NamespaceEntry} {g : Graph}

/-- Every entry of the tables is listed, and once only. -/
theorem listing_of_graphOf (h : graphOf entry = .ok g) :
    g.root.listing.Perm ((List.range g.classes.size).map (.ofClass ⟨·⟩) ++
      (List.range g.enums.size).map (.ofEnum ⟨·⟩)) := by
  obtain ⟨-, root, declared, hdeclare, classes, hclasses, rfl⟩ := graphOf_eq_ok_iff.mp h
  have hsize : classes.toArray.size = declared.classes.size := by
    have hlength := (mapM_eq_ok.mp hclasses).length_eq
    simpa using hlength.symm
  rw [hsize]
  exact listing_of_declare hdeclare

theorem allClasses_perm (h : graphOf entry = .ok g) : g.allClasses.Perm g.classes.toList := by
  rw [g.allClasses_eq_filterMap, ← filterMap_range]
  refine ((listing_of_graphOf h).filterMap _).trans (.of_eq ?_)
  simp [Function.comp_def, classAt?, class?]

theorem allEnums_perm (h : graphOf entry = .ok g) : g.allEnums.Perm g.enums.toList := by
  rw [g.allEnums_eq_filterMap, ← filterMap_range]
  refine ((listing_of_graphOf h).filterMap _).trans (.of_eq ?_)
  simp [Function.comp_def, enumAt?, enum?]

end Decoded

end Document

end ClientForge

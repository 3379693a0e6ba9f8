import ClassBrowser.Engine.Act
import ClassBrowser.Proofs.Assoc
import ClassBrowser.Store
import Mathlib.Data.List.Pairwise
import Mathlib.Data.List.Sort
import Mathlib.Data.String.Basic

/-!
# Classes in the store

The snapshot of a store has each class once, in the order of the names, and a store that an engine
has filled holds the classes that were reported.
-/

namespace ClassBrowser.Store

/-- The store with the classes that acts report. -/
def reported : Store → List Act → Store
  | store, [] => store
  | store, .unit name text :: rest => (store.put name text).reported rest
  | store, _ :: rest => store.reported rest

variable {s : Store} {u : ClassUnit}

theorem units_perm (s : Store) :
    s.units.Perm (s.entries.map fun p => (⟨p.1, p.2⟩ : ClassUnit)) :=
  List.mergeSort_perm _ _

theorem mem_units_iff : u ∈ s.units ↔ (u.name, u.text) ∈ s.entries := by
  rw [s.units_perm.mem_iff, List.mem_map]
  constructor
  · rintro ⟨p, hp, rfl⟩
    exact hp
  · intro hu
    exact ⟨_, hu, rfl⟩

theorem nodup_names_units (s : Store) : (s.units.map ClassUnit.name).Nodup := by
  have hnames : (s.entries.map fun p => (⟨p.1, p.2⟩ : ClassUnit)).map ClassUnit.name =
      s.entries.keys := by
    rw [List.map_map]
    rfl
  rw [(s.units_perm.map ClassUnit.name).nodup_iff, hnames]
  exact s.distinct

/-- The next class of a snapshot is none of those before it. -/
theorem not_mem_of_units_eq {before behind : List ClassUnit} (h : s.units = before ++ u :: behind) :
    u.name ∉ before.map ClassUnit.name := by
  have hnodup := s.nodup_names_units
  rw [h, List.map_append, List.map_cons] at hnodup
  exact fun hmem => (List.nodup_append.1 hnodup).2.2 _ hmem _ List.mem_cons_self rfl

theorem length_units (s : Store) : s.units.length = s.size := by
  rw [s.units_perm.length_eq, List.length_map]
  rfl

/-- The classes of a snapshot are in the order of their names. -/
theorem pairwise_units (s : Store) : s.units.Pairwise fun u v => u.name < v.name := by
  have htrans : IsTrans ClassUnit fun u v => u.name ≤ v.name := ⟨fun _ _ _ => le_trans⟩
  have htotal : Std.Total fun u v : ClassUnit => u.name ≤ v.name :=
    ⟨fun u v => le_total u.name v.name⟩
  have hsorted : s.units.Pairwise fun u v => u.name ≤ v.name :=
    List.pairwise_mergeSort' (fun u v : ClassUnit => u.name ≤ v.name) _
  have hdistinct : s.units.Pairwise fun u v => u.name ≠ v.name :=
    List.pairwise_map.1 s.nodup_names_units
  apply (hsorted.and hdistinct).imp
  intro u v h
  exact lt_of_le_of_ne h.1 h.2

theorem mem_names_iff {name : String} : name ∈ s.names ↔ name ∈ s.entries.keys :=
  List.mem_mergeSort

theorem nodup_names (s : Store) : s.names.Nodup :=
  (List.mergeSort_perm _ _).nodup_iff.2 s.distinct

/-- The names of the snapshot are those in the store. -/
theorem map_name_units (s : Store) : s.units.map ClassUnit.name = s.names := by
  have hkeys : (s.units.map ClassUnit.name).Perm s.entries.keys := by
    have hperm := s.units_perm.map ClassUnit.name
    rw [List.map_map] at hperm
    exact hperm
  have hascending : (s.units.map ClassUnit.name).Pairwise (· ≤ ·) :=
    List.pairwise_map.2 (s.pairwise_units.imp le_of_lt)
  exact (hkeys.trans (List.mergeSort_perm _ _).symm).eq_of_pairwise' hascending
    (List.pairwise_mergeSort' (· ≤ ·) s.entries.keys)

theorem text?_of_mem_units (h : u ∈ s.units) : s.text? u.name = u.text := by
  rw [text?, (Assoc.get?_eq_some_iff s.distinct).2 (mem_units_iff.1 h)]
  rfl

theorem name_mem_names (h : u ∈ s.units) : u.name ∈ s.names :=
  s.map_name_units ▸ List.mem_map_of_mem h

/-- Reported classes are stored one after the other. -/
theorem entries_reported_units (s : Store) (classes : List (String × Option String)) :
    (s.reported (classes.map fun c => .unit c.1 c.2)).entries =
      s.entries.insertAll classes := by
  induction classes generalizing s with
  | nil => rfl
  | cons c classes ih => exact ih (s.put c.1 c.2)

end ClassBrowser.Store

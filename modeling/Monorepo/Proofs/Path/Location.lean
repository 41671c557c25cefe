import Monorepo.FileSystem.Basic
import Monorepo.Proofs.Path.Below

/-! Locations written out. The normal form of an absolute path is a root and the names from there,
with one slash in front of each. -/
namespace Monorepo
namespace FileSystem
open Monorepo.Path Component

theorem joinSegments_append_singleton (ss : List Segment) (s : Segment) (h : ss ≠ []) :
    joinSegments (ss ++ [s]) = joinSegments ss ++ slash :: s := by
  induction ss with
  | nil => exact absurd rfl h
  | cons t ss ih =>
    cases ss with
    | nil => rfl
    | cons u ss =>
      change t ++ slash :: joinSegments (u :: ss ++ [s]) =
        t ++ slash :: joinSegments (u :: ss) ++ slash :: s
      rw [ih (by simp), List.append_assoc, List.cons_append]

theorem getLast?_path_append_singleton (l : Location) (s : Segment) (hs : s ≠ []) :
    (Location.path (l ++ [s])).chars.getLast? = s.getLast? := by
  rw [Location.path]
  by_cases hl : l = []
  · rw [hl]
    exact List.getLast?_cons_of_ne_nil hs
  · rw [joinSegments_append_singleton l s hl, ← List.cons_append,
      List.getLast?_append_of_ne_nil _ (by simp)]
    exact List.getLast?_cons_of_ne_nil hs

theorem path_join_name (l : Location) (s : Segment) (hl : ∀ t ∈ l, IsName t) (hs : IsName s) :
    (Location.path l).join ⟨s⟩ = Location.path (l ++ [s]) := by
  have ha : (Path.mk s).isAbsolute = false := isAbsolute_of_isStep (name s) hs
  cases l using List.reverseRecOn with
  | nil =>
    simp [Path.join, ha, Location.path, joinSegments, isEmpty]
  | append_singleton l t _ =>
    have ht : IsName t := hl t (by simp)
    have hlast : (Location.path (l ++ [t])).chars.getLast? ≠ some slash := by
      rw [getLast?_path_append_singleton l t ht.1]
      exact fun h => ht.2.2.2 (List.mem_of_getLast? h)
    have hempty : (Location.path (l ++ [t])).isEmpty = false := rfl
    rw [Path.join, if_neg (by simp [ha, hempty]), if_neg hlast, Location.path, Location.path,
      joinSegments_append_singleton (l ++ [t]) s (by simp), List.cons_append]

theorem ofComponents_names (l : Location) (hl : ∀ s ∈ l, IsName s) :
    ofComponents (root :: l.map name) = Location.path l := by
  induction l using List.reverseRecOn with
  | nil => rfl
  | append_singleton l s ih =>
    have hl' : ∀ t ∈ l, IsName t := fun t ht => hl t (by simp [ht])
    rw [List.map_append, ← List.cons_append]
    change ofComponents (root :: l.map name ++ [name s]) = _
    rw [ofComponents_append_singleton, ih hl']
    exact path_join_name l s hl' (hl s (by simp))

/-- The normal form of an absolute path is a location written out. -/
theorem normalize_eq_path (p : Path) (h : p.isAbsolute = true) :
    p.normalize = Location.path p.place := by
  rw [normalize_of_isAbsolute p h, ofComponents_names _ (isName_of_mem_place p)]

/-- An absolute path in its normal form is a location. -/
theorem exists_eq_path (p : Path) (h : p.isAbsolute = true) (hn : p.normalize = p) :
    ∃ l : Location, (∀ s ∈ l, IsName s) ∧ p = Location.path l :=
  ⟨p.place, isName_of_mem_place p, by rw [← normalize_eq_path p h, hn]⟩

theorem segments_path (l : Location) (hne : l ≠ []) (hl : ∀ s ∈ l, IsName s) :
    segments (Location.path l).chars = [] :: l := by
  rw [Location.path, segments, if_pos rfl, segments_joinSegments l hne fun s hs => (hl s hs).2.2.2]

theorem components_path (l : Location) (hl : ∀ s ∈ l, IsName s) :
    (Location.path l).components = root :: l.map name := by
  have hstep : ∀ c ∈ l.map name, IsStep c := by
    intro c hc
    obtain ⟨s, hs, rfl⟩ := List.mem_map.mp hc
    exact hl s hs
  rw [← ofComponents_names l hl, components_ofComponents_root _ hstep]

theorem place_path (l : Location) (hl : ∀ s ∈ l, IsName s) : (Location.path l).place = l := by
  have hc := components_path l hl
  rw [components_of_isAbsolute _ rfl] at hc
  rw [place, List.tail_eq_of_cons_eq hc, foldl_lead_names]
  rfl

theorem normalize_path (l : Location) (hl : ∀ s ∈ l, IsName s) :
    (Location.path l).normalize = Location.path l := by
  rw [normalize_eq_path _ rfl, place_path l hl]

end FileSystem
end Monorepo

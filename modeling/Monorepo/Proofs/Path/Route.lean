import Monorepo.Proofs.Path.Parent

/-! Routes: so many steps up and then along some names. Whatever leads on is simplified to a route,
and a route written out has just its own segments. -/
namespace Monorepo
namespace Component

def route (up : Nat) (names : List Segment) : List Component :=
  List.replicate up parent ++ names.map name

theorem isStep_of_mem_route (up : Nat) (names : List Segment) (h : ∀ s ∈ names, IsName s) :
    ∀ c ∈ route up names, IsStep c := by
  intro c hc
  obtain hc | hc := List.mem_append.mp hc
  · rw [List.eq_of_mem_replicate hc]
    trivial
  · obtain ⟨s, hs, rfl⟩ := List.mem_map.mp hc
    exact h s hs

theorem map_chars_route (up : Nat) (names : List Segment) :
    (route up names).map chars = List.replicate up [dot, dot] ++ names := by
  have hn : names.map (chars ∘ name) = names := List.map_id'' (fun _ => rfl) names
  simp [route, chars, hn]

/-- A step at the end of a route either prolongs it or undoes its last name. -/
theorem exists_trail_route (up : Nat) (names : List Segment) (c : Component) (hc : IsStep c) :
    ∃ up' names', trail (route up names).reverse c = (route up' names').reverse := by
  cases c with
  | root => exact hc.elim
  | current => exact hc.elim
  | name s => exact ⟨up, names ++ [s], by simp [trail_name, route]⟩
  | parent =>
    induction names using List.reverseRecOn with
    | nil =>
      refine ⟨up + 1, [], ?_⟩
      simp only [route, List.map_nil, List.append_nil, List.reverse_replicate]
      cases up <;> rfl
    | append_singleton names s => exact ⟨up, names, by simp [route, trail]⟩

theorem exists_simplify_eq_route (cs : List Component) (h : ∀ c ∈ cs, IsStep c) :
    ∃ up names, simplify cs = route up names := by
  induction cs using List.reverseRecOn with
  | nil => exact ⟨0, [], rfl⟩
  | append_singleton cs c ih =>
    obtain ⟨up, names, hs⟩ := ih (fun d hd => h d (by simp [hd]))
    obtain ⟨up', names', ht⟩ := exists_trail_route up names c (h c (by simp))
    exact ⟨up', names', by rw [simplify_append_singleton, hs, ht, List.reverse_reverse]⟩

theorem foldl_trail_names (t : List Component) (names : List Segment) :
    (names.map name).foldl trail t = (names.map name).reverse ++ t := by
  induction names generalizing t with
  | nil => rfl
  | cons s names ih => simp [trail_name, ih]

theorem foldl_trail_parents (up : Nat) :
    (List.replicate up parent).foldl trail [] = List.replicate up parent := by
  induction up with
  | zero => rfl
  | succ n ih =>
    rw [List.replicate_succ', List.foldl_append, ih, ← List.replicate_succ']
    cases n <;> rfl

/-- A route has no detours. -/
theorem simplify_route (up : Nat) (names : List Segment) :
    simplify (route up names) = route up names := by
  rw [simplify, route, List.foldl_append, foldl_trail_parents, foldl_trail_names]
  simp

/-- The way between two places is a route along names of the place that it leads to. -/
theorem exists_way_eq_route (ps bs : List Segment) :
    ∃ up names, way (ps.map name) (bs.map name) = route up names ∧ ∀ s ∈ names, s ∈ ps := by
  obtain ⟨shared, down, up, hp, -, hw⟩ := way_names ps bs
  refine ⟨up.length, down, ?_, ?_⟩
  · rw [hw, route, List.map_const']
  · intro s hs
    exact hp ▸ List.mem_append_right _ hs

/-- Lists that differ in their first component share nothing. -/
theorem dropShared_of_ne (a b : Component) (as bs : List Component) (h : a ≠ b) :
    dropShared (a :: as) (b :: bs) = (a :: as, b :: bs) := by
  rw [dropShared, if_neg h]

end Component

namespace Path
open Component

/-- Steps are written out with just one slash between each two. -/
theorem segments_ofComponents (cs : List Component) (hne : cs ≠ []) (h : ∀ c ∈ cs, IsStep c) :
    segments (ofComponents cs).chars = cs.map Component.chars := by
  induction cs using List.reverseRecOn with
  | nil => exact absurd rfl hne
  | append_singleton cs c ih =>
    have hc : IsStep c := h c (by simp)
    have hcs : ∀ d ∈ cs, IsStep d := fun d hd => h d (by simp [hd])
    rw [ofComponents_append_singleton, List.map_append]
    by_cases hnil : cs = []
    · subst hnil
      change segments (empty.join ⟨c.chars⟩).chars = _
      rw [join_empty_left]
      exact segments_of_no_slash _ hc.no_slash
    · have hs := ih hnil hcs
      have hp : ofComponents cs ≠ empty := mt (ofComponents_eq_empty_iff cs hcs).mp hnil
      obtain ⟨a, ha, hcase⟩ := join_eq_append_slash _ ⟨c.chars⟩ (isAbsolute_of_isStep c hc) hp
      rw [← ha, segments_append_slash, segments_of_no_slash _ hc.no_slash]
      obtain ⟨rfl, -⟩ | hlast := hcase
      · rw [hs]
        rfl
      · -- no step is empty, so no slash stands at the end of what is written already
        rw [← hlast, segments_append_slash] at hs
        have hm : [] ∈ cs.map Component.chars := by
          rw [← hs]
          exact List.mem_append_right _ List.mem_cons_self
        obtain ⟨d, hd, he⟩ := List.mem_map.mp hm
        exact absurd he (hcs d hd).chars_ne_nil

/-- A normal relative path is a route along names. -/
theorem exists_normalize_eq_route (p : Path) (h : p.isAbsolute = false) :
    ∃ up names, p.normalize = ofComponents (route up names) ∧ ∀ s ∈ names, IsName s := by
  obtain ⟨up, names, hs⟩ := exists_simplify_eq_route p.steps (isStep_of_mem_steps p)
  refine ⟨up, names, by rw [normalize, simplify_components_of_relative p h, hs], ?_⟩
  intro s hm
  apply isStep_of_mem_simplify_steps p (name s)
  rw [hs]
  exact List.mem_append_right _ (List.mem_map.mpr ⟨s, hm, rfl⟩)

theorem exists_relativeTo_eq_route (p base : Path) (hp : p.isAbsolute = true)
    (hb : base.isAbsolute = true) :
    ∃ up names, p.relativeTo base = ofComponents (route up names) ∧ ∀ s ∈ names, IsName s := by
  obtain ⟨up, names, hw, hn⟩ := exists_way_eq_route p.place base.place
  exact ⟨up, names, by rw [relativeTo_eq p base hp hb, hw],
    fun s hs => isName_of_mem_place p s (hn s hs)⟩

theorem ofComponents_append_root (as bs : List Component) :
    ofComponents (as ++ root :: bs) = ofComponents (root :: bs) := by
  have hj (p : Path) : p.join ⟨root.chars⟩ = ⟨root.chars⟩ := join_of_isAbsolute p _ rfl
  rw [ofComponents, List.foldl_append, List.foldl_cons, hj]
  rw [ofComponents, List.foldl_cons, hj]

/-- No way leads from a relative path to an absolute one, and the root that is left over replaces
all that was written before it. -/
theorem relativeTo_of_relative (p base : Path) (hp : p.isAbsolute = true)
    (hb : base.isAbsolute = false) : p.relativeTo base = p.normalize := by
  have hn : base.normalize.isAbsolute = false := by rw [isAbsolute_normalize, hb]
  have hd : dropShared p.normalize.components base.normalize.components =
      (p.normalize.components, base.normalize.components) := by
    rw [components_normalize_of_isAbsolute p hp]
    cases hc : base.normalize.components with
    | nil => rfl
    | cons c cs =>
      apply dropShared_of_ne
      rintro rfl
      have ha := isAbsolute_of_root_mem base.normalize (hc ▸ List.mem_cons_self)
      rw [hn] at ha
      cases ha
  simp only [relativeTo, hd]
  rw [components_normalize_of_isAbsolute p hp, ofComponents_append_root,
    normalize_of_isAbsolute p hp]

end Path
end Monorepo

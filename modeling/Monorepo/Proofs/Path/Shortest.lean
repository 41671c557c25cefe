import Monorepo.Proofs.Path.Route

/-! Shortest ways. A step from one place takes one at most one step nearer to another, so no steps
that lead from the one to the other are fewer than those of the way between them. At the root a step
up leads nowhere and takes one no nearer. -/
namespace Monorepo
namespace Component

@[simp] theorem way_self (cs : List Component) : way cs cs = [] := by
  have h := way_append cs [] []
  rwa [List.append_nil] at h

theorem way_names_eq_nil_iff (ps bs : List Segment) :
    way (ps.map name) (bs.map name) = [] ↔ ps = bs := by
  constructor
  · intro h
    rw [← foldl_lead_way ps bs, h]
    rfl
  · rintro rfl
    exact way_self _

theorem length_dropShared_le (as bs : List Component) :
    (dropShared as bs).1.length ≤ as.length ∧ (dropShared as bs).2.length ≤ bs.length := by
  obtain ⟨s, ha, hb⟩ := dropShared_spec as bs
  have hla := congrArg List.length ha
  have hlb := congrArg List.length hb
  simp only [List.length_append] at hla hlb
  omega

/-- What two places share, however little of it is seen, need not be gone. -/
theorem length_way_le_of_shared (shared down up : List Segment) :
    (way ((shared ++ down).map name) ((shared ++ up).map name)).length ≤
      up.length + down.length := by
  have h := length_dropShared_le (down.map name) (up.map name)
  simp only [List.length_map] at h
  rw [List.map_append, List.map_append, way_append, way, List.length_append, List.length_map]
  omega

/-- One step takes one at most one step nearer. -/
theorem length_way_le_lead (ps bs : List Segment) (c : Component) :
    (way (ps.map name) (bs.map name)).length ≤
      (way (ps.map name) ((lead bs c).map name)).length + 1 := by
  obtain ⟨shared, down, up, rfl, hb, hw⟩ := way_names ps (lead bs c)
  have hlength : (way ((shared ++ down).map name) ((lead bs c).map name)).length =
      up.length + down.length := by
    rw [hw]
    simp
  cases c with
  | root => exact Nat.le_succ _
  | current => exact Nat.le_succ _
  | parent =>
    cases bs using List.reverseRecOn with
    | nil => exact Nat.le_succ _
    | append_singleton bs t =>
      -- the step up is one of those that the way from there would have had to undo
      obtain rfl : bs = shared ++ up := by simpa [lead] using hb
      have hle := length_way_le_of_shared shared down (up ++ [t])
      rw [hlength, List.append_assoc]
      simp only [List.length_append, List.length_singleton] at hle
      omega
  | name s =>
    have hb : bs ++ [s] = shared ++ up := hb
    rw [hlength]
    cases up using List.reverseRecOn with
    | nil =>
      -- the step leads down the way itself
      obtain rfl : shared = bs ++ [s] := by simpa using hb.symm
      have hle := length_way_le_of_shared bs ([s] ++ down) []
      rw [List.append_nil, ← List.append_assoc] at hle
      simp only [List.length_append, List.length_singleton, List.length_nil] at hle ⊢
      omega
    | append_singleton up t =>
      rw [← List.append_assoc] at hb
      obtain ⟨rfl, -⟩ := List.append_inj' hb rfl
      have hle := length_way_le_of_shared shared down up
      rw [List.length_append]
      omega

/-- Whatever steps lead somewhere, the way there has no more. -/
theorem length_way_le (cs : List Component) (bs : List Segment) :
    (way ((cs.foldl lead bs).map name) (bs.map name)).length ≤ cs.length := by
  induction cs generalizing bs with
  | nil => simp
  | cons c cs ih =>
    have hstep := length_way_le_lead ((c :: cs).foldl lead bs) bs c
    have hrest := ih (lead bs c)
    rw [List.foldl_cons] at hstep ⊢
    rw [List.length_cons]
    omega

end Component

namespace Path
open Component

/-- Absolute paths have one normal form just if they lead to one place. -/
theorem normalize_eq_iff_place_eq (p q : Path) (hp : p.isAbsolute = true)
    (hq : q.isAbsolute = true) : p.normalize = q.normalize ↔ p.place = q.place := by
  refine ⟨fun h => ?_, normalize_eq_of_place_eq p q hp hq⟩
  have hc := congrArg components h
  rw [components_normalize_of_isAbsolute p hp, components_normalize_of_isAbsolute q hq] at hc
  exact List.map_injective_iff.mpr (fun _ _ h => Component.name.inj h) (List.tail_eq_of_cons_eq hc)

theorem components_relativeTo (p base : Path) (hp : p.isAbsolute = true)
    (hb : base.isAbsolute = true) :
    (p.relativeTo base).components = way (p.place.map name) (base.place.map name) := by
  rw [relativeTo_eq p base hp hb]
  exact components_ofComponents_steps _ (isStep_of_mem_way _ _ (isName_of_mem_place p))

theorem place_join_relativeTo (p base : Path) (hp : p.isAbsolute = true)
    (hb : base.isAbsolute = true) : (base.join (p.relativeTo base)).place = p.place := by
  have hr : (p.relativeTo base).isAbsolute = false := by
    rw [relativeTo_eq p base hp hb]
    exact (steps_ofComponents _ (isStep_of_mem_way _ _ (isName_of_mem_place p))).2
  rw [place_join _ _ hb hr, steps_relativeTo p base hp hb, foldl_lead_way]

/-- The way from one absolute path to another is so many steps up and then names. Joined to where it
starts it leads to where it should, it is empty just where both are one place, and no relative path
that leads there, with whatever detours and steps above the root, has fewer components. -/
theorem relativeTo_shortest (p base : Path) (hp : p.isAbsolute = true)
    (hb : base.isAbsolute = true) :
    (p.relativeTo base).isAbsolute = false ∧
    (∃ (up : Nat) (names : List Segment), (∀ s ∈ names, IsName s) ∧
      (p.relativeTo base).components = List.replicate up parent ++ names.map name) ∧
    (base.join (p.relativeTo base)).normalize = p.normalize ∧
    (p.relativeTo base = empty ↔ p.normalize = base.normalize) ∧
    ∀ q : Path, q.isAbsolute = false → (base.join q).normalize = p.normalize →
      (p.relativeTo base).components.length ≤ q.components.length := by
  have hcomponents := components_relativeTo p base hp hb
  have hstep := isStep_of_mem_way p.place base.place (isName_of_mem_place p)
  have heq := relativeTo_eq p base hp hb
  refine ⟨?_, ?_, ?_, ?_, ?_⟩
  · rw [heq]
    exact (steps_ofComponents _ hstep).2
  · obtain ⟨up, names, hway, hnames⟩ := exists_way_eq_route p.place base.place
    exact ⟨up, names, fun s hs => isName_of_mem_place p s (hnames s hs), hcomponents.trans hway⟩
  · rw [normalize_eq_iff_place_eq _ _ (isAbsolute_join base _ hb) hp]
    exact place_join_relativeTo p base hp hb
  · rw [heq, ofComponents_eq_empty_iff _ hstep, way_names_eq_nil_iff,
      normalize_eq_iff_place_eq p base hp hb]
  · intro q hq hjoin
    have hplace := (normalize_eq_iff_place_eq _ _ (isAbsolute_join base q hb) hp).mp hjoin
    rw [place_join base q hb hq] at hplace
    calc (p.relativeTo base).components.length
        = (way ((q.steps.foldl lead base.place).map name) (base.place.map name)).length := by
          rw [hcomponents, hplace]
      _ ≤ q.steps.length := length_way_le q.steps base.place
      _ ≤ q.components.length := by
          rw [components_eq, List.length_append]
          omega

/-- Of two ways to one place, the longer one goes up from the root and down a name that it leaves
again. -/
theorem relativeTo_shortest_overRoot :
    (Path.ofString "/r//x/../b/src/").relativeTo (.ofString "/r/./a/lib") =
      .ofString "../../b/src" ∧
    ((Path.ofString "/r/./a/lib").join (.ofString "./../../../../r/x/../b//src")).normalize =
      (Path.ofString "/r//x/../b/src/").normalize ∧
    ((Path.ofString "/r//x/../b/src/").relativeTo (.ofString "/r/./a/lib")).components.length ≤
      (Path.ofString "./../../../../r/x/../b//src").components.length := by
  have hjoin : ((Path.ofString "/r/./a/lib").join
      (.ofString "./../../../../r/x/../b//src")).normalize =
      (Path.ofString "/r//x/../b/src/").normalize := by decide
  obtain ⟨-, -, -, -, hshortest⟩ := relativeTo_shortest (.ofString "/r//x/../b/src/")
    (.ofString "/r/./a/lib") (by decide) (by decide)
  exact ⟨by decide, hjoin, hshortest _ (by decide) hjoin⟩

end Path
end Monorepo

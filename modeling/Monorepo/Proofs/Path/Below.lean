import Monorepo.Proofs.Path.Parent

/-! Paths below a base. What lies below a base is told by the names that lead to it from there; the
base itself drops out of containment and of the way between two such paths. -/
namespace Monorepo.Path
open Component

def Confined (p : Path) : Prop := p.isAbsolute = false ∧ parent ∉ p.components

instance (p : Path) : Decidable p.Confined := inferInstanceAs (Decidable (_ ∧ _))

theorem confined_iff_steps (p : Path) (h : p.isAbsolute = false) :
    p.Confined ↔ parent ∉ p.steps := by
  rw [Confined, components_eq, head, if_neg (by simp [h])]
  split_ifs <;> simp [h]

/-- Steps that nowhere lead up are names. -/
theorem exists_map_name (cs : List Component) (hs : ∀ c ∈ cs, IsStep c) (h : parent ∉ cs) :
    ∃ ns : List Segment, cs = ns.map name := by
  induction cs with
  | nil => exact ⟨[], rfl⟩
  | cons c cs ih =>
    obtain ⟨ns, hns⟩ := ih (fun d hd => hs d (List.mem_cons_of_mem _ hd))
      (fun hm => h (List.mem_cons_of_mem _ hm))
    cases c with
    | root => exact (hs root (by simp)).elim
    | current => exact (hs current (by simp)).elim
    | parent => exact absurd List.mem_cons_self h
    | name s => exact ⟨s :: ns, by rw [hns]; rfl⟩

theorem steps_eq_map_place (p : Path) (h : parent ∉ p.steps) : p.steps = p.place.map name := by
  obtain ⟨ns, hns⟩ := exists_map_name p.steps (isStep_of_mem_steps p) h
  rw [place, hns, foldl_lead_names]
  rfl

theorem Confined.steps {p : Path} (h : p.Confined) : p.steps = p.place.map name := by
  apply steps_eq_map_place
  intro hm
  apply h.2
  rw [components_eq]
  exact List.mem_append_right _ hm

/-- Only a path that leads nowhere has an empty normal form. -/
theorem Confined.place_ne_nil {p : Path} (h : p.Confined) (hne : p.normalize ≠ empty) :
    p.place ≠ [] := by
  intro hp
  apply hne
  rw [normalize, simplify_components_of_relative p h.1, h.steps, hp]
  rfl

theorem components_join_of_confined (base x : Path) (hb : base.isAbsolute = true)
    (hx : x.Confined) : (base.join x).components = base.components ++ x.place.map name := by
  have hne : base ≠ empty := by
    rintro rfl
    cases hb
  rw [components_join base x hx.1 hne, hx.steps]

def LiesAt (base : Path) (ns : List Segment) (p : Path) : Prop :=
  p.components = root :: (base.place ++ ns).map name

theorem LiesAt.isAbsolute {base p : Path} {ns : List Segment} (h : LiesAt base ns p) :
    p.isAbsolute = true := by
  apply isAbsolute_of_root_mem
  rw [h]
  exact List.mem_cons_self

theorem LiesAt.steps {base p : Path} {ns : List Segment} (h : LiesAt base ns p) :
    p.steps = (base.place ++ ns).map name := by
  have hc := components_of_isAbsolute p h.isAbsolute
  rw [h] at hc
  exact (List.tail_eq_of_cons_eq hc).symm

theorem LiesAt.place {base p : Path} {ns : List Segment} (h : LiesAt base ns p) :
    p.place = base.place ++ ns := by
  rw [Path.place, h.steps, foldl_lead_names]
  rfl

theorem liesAt_iff_steps (base p : Path) (ns : List Segment) (h : p.isAbsolute = true) :
    LiesAt base ns p ↔ p.steps = (base.place ++ ns).map name := by
  rw [LiesAt, components_of_isAbsolute p h, List.cons_eq_cons]
  simp

theorem LiesAt.congr {base p q : Path} {ns : List Segment} (h : LiesAt base ns p)
    (hq : q.denotesSame p = true) : LiesAt base ns q := by
  have hc : q.components = p.components := eq_of_beq hq
  rw [LiesAt, hc]
  exact h

theorem liesAt_self (base : Path) (hb : base.isAbsolute = true)
    (hn : base.normalize.denotesSame base = true) : LiesAt base [] base := by
  have hc : base.normalize.components = base.components := eq_of_beq hn
  rw [LiesAt, ← hc, components_normalize_of_isAbsolute base hb, List.append_nil]

theorem LiesAt.join {base p : Path} {ns : List Segment} (h : LiesAt base ns p) (x : Path)
    (hx : x.Confined) : LiesAt base (ns ++ x.place) (p.join x) := by
  rw [LiesAt, components_join_of_confined p x h.isAbsolute hx, h]
  simp

theorem LiesAt.normalize {base p : Path} {ns : List Segment} (h : LiesAt base ns p) :
    LiesAt base ns p.normalize := by
  rw [LiesAt, components_normalize_of_isAbsolute p h.isAbsolute, h.place]

/-- Normal paths that lie at one place are one path. -/
theorem LiesAt.normalize_eq {base p q : Path} {ns : List Segment} (hp : LiesAt base ns p)
    (hq : LiesAt base ns q) : p.normalize = q.normalize := by
  apply normalize_eq_of_place_eq p q hp.isAbsolute hq.isAbsolute
  rw [hp.place, hq.place]

theorem LiesAt.isWithin {base p q : Path} {ns ms : List Segment} (hp : LiesAt base ns p)
    (hq : LiesAt base ms q) :
    p.isWithin q = (ms.map name).isPrefixOf (ns.map name) := by
  rw [Bool.eq_iff_iff, Path.isWithin, hp, hq, List.isPrefixOf_iff_prefix,
    List.isPrefixOf_iff_prefix, List.map_append, List.map_append, List.cons_prefix_cons]
  simp

theorem LiesAt.relativeTo {base p q : Path} {ns ms : List Segment} (hp : LiesAt base ns p)
    (hq : LiesAt base ms q) :
    p.relativeTo q = ofComponents (way (ns.map name) (ms.map name)) := by
  rw [relativeTo_eq p q hp.isAbsolute hq.isAbsolute, hp.place, hq.place, List.map_append,
    List.map_append, way_append]

theorem LiesAt.parent? {base p : Path} {ns : List Segment} (h : LiesAt base ns p) (hne : ns ≠ []) :
    ∃ q, p.parent? = some q ∧ LiesAt base ns.dropLast q := by
  have hs := h.steps
  obtain ⟨h0, -⟩ | ⟨q, hq, ha, -, hl⟩ := parent?_of_isAbsolute p h.isAbsolute
  · rw [h0] at hs
    simp [hne] at hs
  · refine ⟨q, hq, (liesAt_iff_steps base q _ ha).mpr ?_⟩
    rw [hl, hs, ← List.map_dropLast, List.dropLast_append_of_ne_nil hne]

theorem liesAt_normalize (base : Path) (hb : base.isAbsolute = true) :
    LiesAt base [] base.normalize := by
  rw [LiesAt, components_normalize_of_isAbsolute base hb, List.append_nil]

theorem liesAt_normalize_join (base x : Path) (hb : base.isAbsolute = true) (hx : x.Confined) :
    LiesAt base x.place (base.join x).normalize := by
  rw [LiesAt, components_normalize_of_isAbsolute _ (isAbsolute_join base x hb),
    place_join base x hb hx.1, hx.steps, foldl_lead_names]

theorem LiesAt.isWithin_base {base p : Path} {ns : List Segment} (h : LiesAt base ns p)
    (hb : base.isAbsolute = true) (hn : base.normalize = base) : p.isWithin base = true := by
  have hself := liesAt_normalize base hb
  rw [hn] at hself
  rw [h.isWithin hself]
  rfl

theorem isWithin_trans {p q r : Path} (hpq : p.isWithin q = true) (hqr : q.isWithin r = true) :
    p.isWithin r = true := by
  rw [Path.isWithin, List.isPrefixOf_iff_prefix] at *
  exact hqr.trans hpq

/-- What nowhere leads up stays below any base, and the base may have detours of its own. -/
theorem isWithin_normalize_join (base x : Path) (hb : base.isAbsolute = true) (hx : x.Confined) :
    (base.join x).normalize.isWithin base.normalize = true := by
  rw [(liesAt_normalize_join base x hb hx).isWithin (liesAt_normalize base hb)]
  rfl

/-- What lies below a base is found by joining. -/
theorem exists_confined (ns : List Segment) (h : ∀ s ∈ ns, IsName s) :
    ∃ x : Path, x.Confined ∧ x.place = ns := by
  have hstep : ∀ c ∈ ns.map name, IsStep c := by
    intro c hc
    obtain ⟨s, hs, rfl⟩ := List.mem_map.mp hc
    exact h s hs
  obtain ⟨hs, ha⟩ := steps_ofComponents _ hstep
  refine ⟨ofComponents (ns.map name), ⟨ha, ?_⟩, ?_⟩
  · rw [components_ofComponents_steps _ hstep]
    simp
  · rw [Path.place, hs, foldl_lead_names]
    rfl

structure IsBase (A : Path) : Prop where
  isAbsolute : A.isAbsolute = true
  normal : A.normalize.denotesSame A = true

/-- The same names lead from `A` to `p` and from `B` to `q`. -/
def Twins (A B p q : Path) : Prop := ∃ ns, LiesAt A ns p ∧ LiesAt B ns q

variable {A B : Path}

theorem IsBase.liesAt_join (h : A.IsBase) (x : Path) (hx : x.Confined) :
    LiesAt A x.place (A.join x) :=
  (liesAt_self A h.isAbsolute h.normal).join x hx

theorem Twins.normalize {p q : Path} (h : Twins A B p q) : Twins A B p.normalize q.normalize := by
  obtain ⟨ns, hp, hq⟩ := h
  exact ⟨ns, hp.normalize, hq.normalize⟩

theorem Twins.join {p q : Path} (h : Twins A B p q) (x : Path) (hx : x.Confined) :
    Twins A B (p.join x) (q.join x) := by
  obtain ⟨ns, hp, hq⟩ := h
  exact ⟨ns ++ x.place, hp.join x hx, hq.join x hx⟩

theorem Twins.isWithin {p q p' q' : Path} (h : Twins A B p q) (h' : Twins A B p' q') :
    p.isWithin p' = q.isWithin q' := by
  obtain ⟨ns, hp, hq⟩ := h
  obtain ⟨ms, hp', hq'⟩ := h'
  rw [hp.isWithin hp', hq.isWithin hq']

theorem Twins.relativeTo {p q p' q' : Path} (h : Twins A B p q) (h' : Twins A B p' q') :
    p.relativeTo p' = q.relativeTo q' := by
  obtain ⟨ns, hp, hq⟩ := h
  obtain ⟨ms, hp', hq'⟩ := h'
  rw [hp.relativeTo hp', hq.relativeTo hq']

/-- Normal twins are what joining one path to both bases comes to. -/
theorem Twins.exists_join (hA : A.IsBase) (hB : B.IsBase) {p q : Path} (h : Twins A B p q) :
    ∃ x : Path, x.Confined ∧ p.normalize = (A.join x).normalize ∧
      q.normalize = (B.join x).normalize := by
  obtain ⟨ns, hp, hq⟩ := h
  have hns : ∀ s ∈ ns, IsName s := by
    intro s hs
    apply isName_of_mem_place p
    rw [hp.place]
    exact List.mem_append_right _ hs
  obtain ⟨x, hx, rfl⟩ := exists_confined ns hns
  exact ⟨x, hx, hp.normalize_eq (hA.liesAt_join x hx), hq.normalize_eq (hB.liesAt_join x hx)⟩

end Monorepo.Path
